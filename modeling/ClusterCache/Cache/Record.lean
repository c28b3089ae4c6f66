/-
# Records and how they leave

Every insertion makes a record of its own, numbered in the order of insertion, so that two records
with the same key and value are still told apart.  A record that leaves a cache leaves for one of
four reasons.
-/

import ClusterCache.Text.Outline

namespace ClusterCache

/-- What one insertion stored. -/
structure Record (K V : Type) where
  key : K
  value : V
  /-- The hash of the key. -/
  hash : UInt64
  /-- How many insertions the cache had seen before. -/
  serial : Nat
  deriving DecidableEq, Repr

/-- A key with the hash by which it is looked up. -/
structure Hashed (K : Type) where
  hash : UInt64
  key : K
  deriving DecidableEq

/-- A key is looked up by the hash that comes with it, whatever other hashes keys may have. -/
instance {K : Type} : Hashable (Hashed K) := ⟨Hashed.hash⟩

namespace Record

variable {K V : Type}

/-- What a record is filed under. -/
def hashed (r : Record K V) : Hashed K := ⟨r.hash, r.key⟩

/-- Whether two records of one cache come from the same insertion. -/
def same (a b : Record K V) : Bool := a.serial = b.serial

/-- The record as its holder sees it. -/
def outline (key : K → Text.Outline) (value : V → Text.Outline) (r : Record K V) : Text.Outline :=
  .record "CacheEntry" [("key", key r.key), ("value", value r.value)]

end Record

/-- Why a record leaves a cache. -/
inductive Reason where
  /-- Given up for the bound. -/
  | evict
  /-- Another record took its place. -/
  | replace
  /-- Taken out by its key. -/
  | remove
  /-- Taken out with all others. -/
  | clear
  deriving DecidableEq, Repr

namespace Reason

/-- All reasons. -/
def all : List Reason := [evict, replace, remove, clear]

/-- The name of a reason. -/
def name : Reason → String
  | evict => "Evict"
  | replace => "Replace"
  | remove => "Remove"
  | clear => "Clear"

end Reason

/-- A record leaving a cache. -/
structure Departure (K V : Type) where
  reason : Reason
  record : Record K V
  deriving DecidableEq, Repr

end ClusterCache
