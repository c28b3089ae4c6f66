/-
# What an invocation knows

A chain of handlers passes on a context: the transaction that the invocation belongs to, the node
that it came from if it came from elsewhere, and the keys that are locked on its behalf.  The keys
are a set; `mem_locked_lock` and `mem_locked_unlock` say how it changes.
-/

import ClusterCache.Lock.Transaction

namespace ClusterCache

/-- What an invocation knows. -/
structure Context (K : Type) where
  transaction : Option Transaction := none
  /-- The node that the invocation came from; none if it began here. -/
  origin : Option Address := none
  /-- The keys that are locked on behalf of the invocation, no key twice. -/
  locked : List K := []

namespace Context

variable {K : Type}

/-- An invocation of a transaction. -/
def ofTransaction (x : Transaction) : Context K := { transaction := some x }

/-- Says that the invocation came from another node. -/
def withOrigin (c : Context K) (origin : Address) : Context K := { c with origin := some origin }

/-- Whether the invocation began here. -/
def isLocal (c : Context K) : Bool := c.origin.isNone

/-- Forgets all locked keys. -/
def unlockAll (c : Context K) : Context K := { c with locked := [] }

variable [DecidableEq K]

/-- Whether a key is locked on behalf of the invocation. -/
def isLocked (c : Context K) (k : K) : Bool := k ∈ c.locked

/-- Notes keys that were locked. -/
def lock (c : Context K) (keys : List K) : Context K :=
  { c with locked := keys.foldl (fun locked k => locked.insert k) c.locked }

/-- Notes keys that were unlocked. -/
def unlock (c : Context K) (keys : List K) : Context K :=
  { c with locked := c.locked.filter fun k => k ∉ keys }

/-- Inserting keys one by one adds those keys and no others. -/
theorem mem_foldl_insert {keys locked : List K} {k : K} :
    k ∈ keys.foldl (fun locked k => locked.insert k) locked ↔ k ∈ locked ∨ k ∈ keys := by
  induction keys generalizing locked with
  | nil => simp
  | cons a keys ih => simp [ih, List.mem_insert_iff, or_comm, or_assoc, or_left_comm]

/-- Locking adds the keys given and takes none away. -/
theorem mem_locked_lock {c : Context K} {keys : List K} {k : K} :
    k ∈ (c.lock keys).locked ↔ k ∈ c.locked ∨ k ∈ keys := mem_foldl_insert

/-- Unlocking takes away the keys given and no others. -/
theorem mem_locked_unlock {c : Context K} {keys : List K} {k : K} :
    k ∈ (c.unlock keys).locked ↔ k ∈ c.locked ∧ k ∉ keys := by
  simp [unlock]

end Context
end ClusterCache
