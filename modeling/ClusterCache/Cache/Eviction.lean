/-
# Keeping to the bound

Records above the bound are claimed one at a time.  For each claim the shards are asked in a round
that begins at a given shard, and the first that gives up a record ends the round.  A round without
a record gives the claim back and ends the eviction.
-/

import ClusterCache.Cache.State

namespace ClusterCache
namespace Cache

variable {K V : Type} [DecidableEq K] {S : Strategy K}

/-- The shards in the order of a round that begins at shard `start`. -/
def round (c : Cache S V) (start : Nat) : List Nat :=
  (List.range c.shards.size).map fun i => (start + i) % c.shards.size

/-- Asks shards in order until one gives up a record. -/
def takeFirst (c : Cache S V) : List Nat → Option (Record K V) × Cache S V
  | [] => (none, c)
  | i :: rest =>
    match c.takeFrom i with
    | (some r, c) => (some r, c)
    | (none, c) => takeFirst c rest

/-- Gives up records above the bound, at most `limit` of them, in rounds that begin at shard
`start`. -/
def evictOverflow (c : Cache S V) (start : Nat) : (limit : Nat) → List (Record K V) × Cache S V
  | 0 => ([], c)
  | limit + 1 =>
    match c.claim with
    | none => ([], c)
    | some c =>
      match c.takeFirst (c.round start) with
      | (none, c) => ([], c.giveBack)
      | (some r, c) =>
        let (rest, c) := evictOverflow c start limit
        (r :: rest, c)

/-- How many records are above the bound. -/
def overflow (c : Cache S V) : Nat :=
  match c.maxEntries with
  | none => 0
  | some max => (c.len - max).toNat

end Cache
end ClusterCache
