/-
# A load under way

Writers take turns: in a turn each of them stores one record.  The key is drawn from the key space,
the value is the number of the turn.  After the turns the cache is swept until it is down to its
bound, and the report is made.  Time does not pass by itself here; whoever drives the load measures
it.
-/

import ClusterCache.Hash
import ClusterCache.Load.Options
import ClusterCache.Load.Report

namespace ClusterCache
namespace Load

/-- A load under way. -/
structure Run (S : Strategy UInt64) where
  options : Options
  cache : Cache S UInt64
  /-- How many turns there have been. -/
  turns : Nat
  /-- How many records were written. -/
  inserts : Nat
  /-- The largest number of records seen so far. -/
  peak : Nat

/-- A load that is about to begin, if its cache can be made. -/
def Run.start (o : Options) : Except Fault (Run (o.builder.config.strategy UInt64)) :=
  (o.builder.build UInt64 UInt64 Hash.ofWord).map fun cache => ⟨o, cache, 0, 0, 0⟩

namespace Run

variable {S : Strategy UInt64}

/-- The key that a draw falls on. -/
def key (r : Run S) (draw : UInt64) : UInt64 := draw % r.options.keySpace

/-- One writer stores a record. -/
def write (r : Run S) (draw : UInt64) : Run S :=
  let (_, _, cache) := r.cache.insert (r.key draw) r.turns.toUInt64
  { r with cache, inserts := r.inserts + 1 }

/-- Every writer stores a record; there is a draw for each. -/
def turn (r : Run S) (draws : List UInt64) : Run S :=
  let r := draws.foldl write r
  { r with turns := r.turns + 1, peak := max r.peak r.cache.size }

/-- The background sweeper comes by. -/
def sweep (r : Run S) : Run S := { r with cache := r.cache.sweep.2.2 }

/-- Whether the cache is down to its bound. -/
def settled (r : Run S) : Bool :=
  match r.cache.maxEntries with
  | none => true
  | some max => r.cache.size ≤ max

/-- The outcome, with the times that were measured. -/
def report (r : Run S) (writeMillis : UInt64) (settleMillis : Option UInt64) : Report where
  order := r.cache.controller.config.order
  maxEntries := r.cache.maxEntries
  writers := r.options.writers.toNat
  inserts := r.inserts.toUInt64
  writeMillis := writeMillis
  peakLen := r.peak
  finalLen := r.cache.size
  settleMillis := settleMillis
  metrics := r.cache.metrics

/-- Takes turns whose draws are made up from their numbers. -/
def rehearse (r : Run S) : (turns : Nat) → Run S
  | 0 => r
  | n + 1 =>
    let draw i := Hash.ofWord (r.turns * r.options.writers.toNat + i).toUInt64
    rehearse (r.turn ((List.range r.options.writers.toNat).map draw)) n

end Run

/-- The outcome of a load of `turns` turns that takes no time. -/
def rehearsal (o : Options) (turns : Nat) : Except Fault Report :=
  (Run.start o).map fun r =>
    let r := r.rehearse turns
    let r := if r.settled then r else r.sweep
    r.report 0 (if r.settled then some 0 else none)

end Load
end ClusterCache
