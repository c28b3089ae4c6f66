/-
# A strategy that holds back and invents

Oldest first, with a gate that all shards share.  While the gate is closed no victim is named,
although there are keys.  While it is open, a list of phantoms, which are shared too and need not be
held by any shard, is named from its end before the first true victim.  It shows what a cache does
with a strategy that refuses, and with one that names keys that are not there.
-/

import ClusterCache.Eviction.Fifo

namespace ClusterCache

/-- What the shards have in common. -/
structure Gate (K : Type) where
  /-- Whether victims are named at all. -/
  isOpen : Bool := true
  /-- Keys to name first, from the end. -/
  phantoms : List K := []

/-- Oldest first behind a gate. -/
def Strategy.gated (K : Type) [DecidableEq K] [Hashable K] : Strategy K where
  State := Fifo K
  Shared := Gate K
  initShared := {}
  tracksAccess := false
  init _ := .init
  push := .push
  access := .access
  remove := .remove
  pop gate s :=
    if !gate.isOpen then (none, gate, s)
    else match gate.phantoms.getLast? with
      | some k => (some k, { gate with phantoms := gate.phantoms.dropLast }, s)
      | none =>
        let (k, s) := s.pop
        (k, gate, s)
  clear := .clear
  size := Fifo.size
  patience _ gate s := gate.phantoms.length + s.size

end ClusterCache
