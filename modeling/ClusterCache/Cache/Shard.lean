/-
# One shard

A shard holds records in a table that is searched by hash and key, and what its strategy remembers about
those keys.  Every change to the records is told to the strategy.

Whoever looks a key up knows its hash.  A strategy knows keys alone, so the key of a victim is hashed
anew before it is looked for.  A victim that is not found is passed over, and the strategy is asked
again.
-/

import ClusterCache.Cache.RecordTable
import ClusterCache.Eviction.Strategy

namespace ClusterCache

/-- The records of one shard, and what its strategy remembers. -/
structure Shard {K : Type} [DecidableEq K] (S : Strategy K) (V : Type) where
  table : RecordTable K V
  memory : S.State

namespace Shard

variable {K V : Type} [DecidableEq K] {S : Strategy K}

/-- A shard for the number of records given, without records. -/
def init (S : Strategy K) (V : Type) (capacity : Nat) : Shard S V := ⟨.empty, S.init capacity⟩

/-- The records, in no order that means anything. -/
def records (s : Shard S V) : List (Record K V) := s.table.records

/-- The number of records. -/
def size (s : Shard S V) : Nat := s.table.size

/-- Takes all records out. -/
def clear (s : Shard S V) : List (Record K V) × Shard S V :=
  (s.records, ⟨.empty, S.clear s.memory⟩)

/-- The record of a key with the hash `h`. -/
def find? (s : Shard S V) (h : UInt64) (k : K) : Option (Record K V) := s.table.find? h k

/-- Whether there is a record for a key with the hash `h`. -/
def contains (s : Shard S V) (h : UInt64) (k : K) : Bool := (s.find? h k).isSome

/-- Whether a key has a record that its hash finds. -/
def holds (s : Shard S V) (hash : K → UInt64) (k : K) : Bool := s.contains (hash k) k

/-- Stores a record; answers the one whose place it takes. -/
def place (s : Shard S V) (r : Record K V) : Option (Record K V) × Shard S V :=
  match s.find? r.hash r.key with
  | some old => (some old, ⟨s.table.insert r, S.access s.memory old.key⟩)
  | none => (none, ⟨s.table.insert r, S.push s.memory r.key⟩)

/-- Looks a key with the hash `h` up, which may count as an access. -/
def lookup (s : Shard S V) (h : UInt64) (k : K) : Option (Record K V) × Shard S V :=
  match s.find? h k with
  | some r => (some r, if S.tracksAccess then { s with memory := S.access s.memory r.key } else s)
  | none => (none, s)

/-- Takes out the record of a key with the hash `h`. -/
def detach (s : Shard S V) (h : UInt64) (k : K) : Option (Record K V) × Shard S V :=
  match s.find? h k with
  | some r => (some r, ⟨s.table.erase h k, S.remove s.memory r.key⟩)
  | none => (none, s)

/-- Asks the strategy for a victim until it names a key that is held, or none, or more than
`patience` keys that are not held. -/
def evictWithin (hash : K → UInt64) : (patience : Nat) → S.Shared → Shard S V →
    Option (Record K V) × S.Shared × Shard S V
  | patience, shared, s =>
    match S.pop shared s.memory with
    | (none, shared, memory) => (none, shared, { s with memory })
    | (some k, shared, memory) =>
      match s.find? (hash k) k with
      | some r => (some r, shared, ⟨s.table.erase (hash k) k, memory⟩)
      | none =>
        match patience with
        | 0 => (none, shared, { s with memory })
        | patience + 1 => evictWithin hash patience shared { s with memory }

/-- Gives up the record that the strategy chooses. -/
def evict (hash : K → UInt64) (shared : S.Shared) (s : Shard S V) :
    Option (Record K V) × S.Shared × Shard S V :=
  s.evictWithin hash (S.patience (s.holds hash) shared s.memory) shared

end Shard
end ClusterCache
