/-
# A bounded cache and its indivisible steps

A cache spreads its records over shards by the upper half of the hash of their keys.  It counts them
in `len`.  Whoever wants to give up a record for the bound first *claims* one, which lowers `len`, and
only then looks for a victim; a claim that finds none is *given back*.  So `len` is the number of
records less the number of claims under way, and no two claims are made for the same surplus record.

The functions here are the steps that nothing can come in between: each changes one shard together
with `len`, or `len` alone, or one of the counters.
-/

import ClusterCache.Total
import ClusterCache.Cache.Shard
import ClusterCache.Controller
import ClusterCache.Metrics

namespace ClusterCache

/-- A bounded cache. -/
structure Cache {K : Type} [DecidableEq K] (S : Strategy K) (V : Type) where
  shards : Array (Shard S V)
  /-- What the strategies of all shards remember together. -/
  shared : S.Shared
  controller : Controller
  /-- The number of records less the number of claims under way. -/
  len : Int
  /-- How many sweeps have been started. -/
  cursor : Nat
  metrics : Metrics
  /-- How many records have been made. -/
  created : Nat
  /-- The hash of a key. -/
  hash : K → UInt64

namespace Cache

variable {K V : Type} [DecidableEq K] {S : Strategy K}

/-- The most records that one insertion gives up. -/
def inlineBatch : Nat := 8

/-- The most records, if there is a bound. -/
def maxEntries (c : Cache S V) : Option Nat :=
  if c.controller.config.order.isBounded then some c.controller.config.maxEntries.toNat else none

/-- Whether the bound is enforced. -/
def isRunning (c : Cache S V) : Bool := c.controller.running

/-- The shard for a hash. -/
def shardOf (c : Cache S V) (hash : UInt64) : Nat := (hash >>> 32).toNat % c.shards.size

/-- The number of records, as the cache reports it. -/
def size (c : Cache S V) : Nat := c.len.toNat

/-- The number of records that the shards hold. -/
def stored (c : Cache S V) : Nat := total Shard.size c.shards.toList

/-- All records, shard by shard. -/
def records (c : Cache S V) : List (Record K V) := c.shards.toList.flatMap Shard.records

/-- Counts something. -/
def count (c : Cache S V) (f : Metrics → Metrics) : Cache S V := { c with metrics := f c.metrics }

/-- Claims a record above the bound. -/
def claim (c : Cache S V) : Option (Cache S V) :=
  match c.maxEntries with
  | none => none
  | some max => if (max : Int) < c.len then some { c with len := c.len - 1 } else none

/-- Gives a claim back. -/
def giveBack (c : Cache S V) : Cache S V := { c with len := c.len + 1 }

/-- Takes all records out of shard `i`. -/
def clearShard (c : Cache S V) (i : Nat) : List (Record K V) × Cache S V :=
  match c.shards[i]? with
  | none => ([], c)
  | some s =>
    let (out, s) := s.clear
    (out, { c with shards := c.shards.setIfInBounds i s, len := c.len - out.length })

/-- Where the next sweep begins; the one after it begins one shard later. -/
def advance (c : Cache S V) : Nat × Cache S V :=
  (c.cursor % c.shards.size, { c with cursor := c.cursor + 1 })

/-- Stops enforcing the bound. -/
def stop (c : Cache S V) : Cache S V := { c with controller := c.controller.stop }

/-- Whether there is a record for a key. -/
def contains (c : Cache S V) (k : K) : Bool :=
  match c.shards[c.shardOf (c.hash k)]? with
  | none => false
  | some s => s.contains (c.hash k) k

/-- Makes a record and stores it; answers it and the one whose place it takes. -/
def place (c : Cache S V) (k : K) (v : V) : Record K V × Option (Record K V) × Cache S V :=
  let r : Record K V := ⟨k, v, c.hash k, c.created⟩
  let c := { c with created := c.created + 1 }
  let i := c.shardOf r.hash
  match c.shards[i]? with
  | none => (r, none, c)
  | some s =>
    let (old, s) := s.place r
    (r, old, { c with
      shards := c.shards.setIfInBounds i s
      len := if old.isNone then c.len + 1 else c.len })

/-- Looks a key up, which may count as an access. -/
def lookup (c : Cache S V) (k : K) : Option (Record K V) × Cache S V :=
  let i := c.shardOf (c.hash k)
  match c.shards[i]? with
  | none => (none, c)
  | some s =>
    let (r, s) := s.lookup (c.hash k) k
    (r, { c with shards := c.shards.setIfInBounds i s })

/-- Takes out the record of a key. -/
def detach (c : Cache S V) (k : K) : Option (Record K V) × Cache S V :=
  let i := c.shardOf (c.hash k)
  match c.shards[i]? with
  | none => (none, c)
  | some s =>
    let (r, s) := s.detach (c.hash k) k
    (r, { c with shards := c.shards.setIfInBounds i s, len := if r.isSome then c.len - 1 else c.len })

/-- Gives up a record of shard `i` on a claim. -/
def takeFrom (c : Cache S V) (i : Nat) : Option (Record K V) × Cache S V :=
  match c.shards[i]? with
  | none => (none, c)
  | some s =>
    let (r, shared, s) := s.evict c.hash c.shared
    (r, { c with shared, shards := c.shards.setIfInBounds i s })

end Cache
end ClusterCache
