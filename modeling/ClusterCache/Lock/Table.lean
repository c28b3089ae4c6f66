/-
# Who owns which key

A lock table gives every key to at most one transaction.  The owners are spread over stripes by the
hash of the keys.  The steps that nothing can come in between are these: `attempt` asks for one key;
`releaseRun` gives back keys of one stripe; `releaseStripe` gives back all that a transaction owns in
one stripe.  Everything else is made of them.

A request for several keys is an acquisition.  It asks for its keys in the order in which they come,
each once, and stops at a key that another transaction owns.  It may then be taken up again, or given
up: then it gives back what it was granted, but not what its transaction owned before.
-/

import ClusterCache.Total
import ClusterCache.Assoc
import ClusterCache.Duration.Text
import ClusterCache.Fault
import ClusterCache.Lock.Transaction

namespace ClusterCache

/-- The owners of keys. -/
structure LockTable (K : Type) where
  /-- The owners of the keys of each stripe. -/
  stripes : Array (Assoc K Transaction)
  /-- How long to wait for a key. -/
  timeout : Duration
  /-- The hash of a key. -/
  hash : K → UInt64

/-- What becomes of asking for a key. -/
inductive Grant where
  /-- The key had no owner. -/
  | fresh
  /-- The key is the requester's already. -/
  | reentrant
  /-- The key is another's. -/
  | blocked (owner : Transaction)
  deriving DecidableEq, Repr

/-- A request for keys under way. -/
structure Acquisition (K : Type) where
  requester : Transaction
  /-- The keys still to ask for. -/
  pending : List K
  /-- The keys that were granted and had no owner before. -/
  granted : List K

/-- How far an acquisition has come. -/
inductive Progress (K : Type) where
  /-- The requester owns every key; these had no owner before. -/
  | done (granted : List K)
  /-- The next key is another's. -/
  | blocked (a : Acquisition K) (key : K) (owner : Transaction)

/-- Why an acquisition failed: a key that another transaction owns. -/
inductive LockError (K : Type) where
  /-- There was no time to wait. -/
  | conflict (key : K) (owner requester : Transaction)
  /-- The time to wait was up. -/
  | timeout (key : K) (owner requester : Transaction) (waited : Duration)

/-- The error as a fault; `key` outlines a key. -/
def LockError.toFault {K : Type} (key : K → Text.Outline) : LockError K → Fault
  | .conflict k owner requester =>
    (((Fault.new .lockConflict "key is locked by another transaction").withContext
      "key" (key k).line).withContext "owner" owner.text).withContext "requester" requester.text
  | .timeout k owner requester waited =>
    ((((Fault.new .lockTimeout "timed out waiting for the lock").withContext
      "key" (key k).line).withContext "owner" owner.text).withContext
      "requester" requester.text).withContext "timeout" waited.decimalText

namespace LockTable

variable {K : Type}

/-- The number of stripes if none is chosen. -/
def defaultStripes : Nat := 64

/-- A table without owners; it has at least one stripe. -/
def create (stripes : Nat) (timeout : Duration) (hash : K → UInt64) : LockTable K :=
  ⟨Array.replicate (max stripes 1) .empty, timeout, hash⟩

/-- The stripe of a key. -/
def stripeOf (t : LockTable K) (k : K) : Nat := (t.hash k).toNat % t.stripes.size

/-- The number of keys with an owner. -/
def lockedCount (t : LockTable K) : Nat := total Assoc.size t.stripes.toList

/-- The parts of a table. -/
def outline (t : LockTable K) : Text.Outline :=
  .record "LockTable" [
    ("stripes", .nat t.stripes.size),
    ("timeout", .word t.timeout.decimalText)]

/-- Gives back all that a transaction owns in stripe `i`. -/
def releaseStripe (t : LockTable K) (x : Transaction) (i : Nat) : List K × LockTable K :=
  match t.stripes[i]? with
  | none => ([], t)
  | some owners =>
    ((owners.filter fun _ owner => owner = x).keys,
      { t with stripes := t.stripes.setIfInBounds i (owners.filter fun _ owner => owner ≠ x) })

/-- Gives back all that a transaction owns in the stripes given; answers the keys in front of those
given back before. -/
def releaseStripes (t : LockTable K) (x : Transaction) (released : List K) :
    List Nat → List K × LockTable K
  | [] => (released, t)
  | i :: rest =>
    let (keys, t) := t.releaseStripe x i
    releaseStripes t x (keys ++ released) rest

/-- Gives back all that a transaction owns; answers the keys. -/
def releaseAll (t : LockTable K) (x : Transaction) : List K × LockTable K :=
  t.releaseStripes x [] (List.range t.stripes.size)

variable [DecidableEq K]

/-- The owner of a key. -/
def owner? (t : LockTable K) (k : K) : Option Transaction :=
  match t.stripes[t.stripeOf k]? with
  | none => none
  | some owners => owners.get? k

/-- Whether a key has an owner. -/
def isLocked (t : LockTable K) (k : K) : Bool := (t.owner? k).isSome

/-- Each key once, where it comes first. -/
def distinct : List K → List K
  | [] => []
  | k :: rest => k :: (distinct rest).filter (· ≠ k)

/-- Asks for a key. -/
def attempt (t : LockTable K) (x : Transaction) (k : K) : Grant × LockTable K :=
  match t.stripes[t.stripeOf k]? with
  | none => (.fresh, t)
  | some owners =>
    match owners.get? k with
    | none => (.fresh, { t with stripes := t.stripes.setIfInBounds (t.stripeOf k) (owners.insert k x) })
    | some owner => if owner = x then (.reentrant, t) else (.blocked owner, t)

/-- Takes the keys that a transaction owns out of the owners of a stripe; answers how many. -/
def disown (x : Transaction) (owners : Assoc K Transaction) :
    List K → Nat × Assoc K Transaction
  | [] => (0, owners)
  | k :: rest =>
    if owners.get? k = some x then
      let (n, owners) := disown x (owners.erase k) rest
      (n + 1, owners)
    else disown x owners rest

/-- Gives back those of the keys given, which all are of stripe `i`, that a transaction owns. -/
def releaseRun (t : LockTable K) (x : Transaction) (i : Nat) (keys : List K) :
    Nat × LockTable K :=
  match t.stripes[i]? with
  | none => (0, t)
  | some owners =>
    let (n, owners) := disown x owners keys
    (n, { t with stripes := t.stripes.setIfInBounds i owners })

/-- Keys with their stripes, neighbours of one stripe together. -/
def runs (t : LockTable K) : List K → List (Nat × List K)
  | [] => []
  | k :: rest =>
    match runs t rest with
    | [] => [(t.stripeOf k, [k])]
    | (i, run) :: more =>
      if t.stripeOf k = i then (i, k :: run) :: more else (t.stripeOf k, [k]) :: (i, run) :: more

/-- Gives back keys, run by run. -/
def releaseRuns (t : LockTable K) (x : Transaction) : List (Nat × List K) → Nat × LockTable K
  | [] => (0, t)
  | (i, run) :: rest =>
    let (n, t) := t.releaseRun x i run
    let (m, t) := releaseRuns t x rest
    (n + m, t)

/-- Gives back those of the keys given that a transaction owns; answers how many. -/
def release (t : LockTable K) (x : Transaction) (keys : List K) : Nat × LockTable K :=
  t.releaseRuns x (t.runs (distinct keys))

/-- Asks for keys until one is another's. -/
def advance (t : LockTable K) (x : Transaction) (granted : List K) :
    List K → Progress K × LockTable K
  | [] => (.done granted, t)
  | k :: rest =>
    match t.attempt x k with
    | (.fresh, t) => advance t x (granted ++ [k]) rest
    | (.reentrant, t) => advance t x granted rest
    | (.blocked owner, t) => (.blocked ⟨x, k :: rest, granted⟩ k owner, t)

/-- Begins an acquisition. -/
def request (t : LockTable K) (x : Transaction) (keys : List K) : Progress K × LockTable K :=
  t.advance x [] (distinct keys)

/-- Takes an acquisition up again. -/
def resume (t : LockTable K) (a : Acquisition K) : Progress K × LockTable K :=
  t.advance a.requester a.granted a.pending

/-- The acquisition that waits, if there is a key to wait for and time to wait. -/
def waits? (t : LockTable K) : Progress K → Option (Acquisition K)
  | .done _ => none
  | .blocked a _ _ => if t.timeout.isZero then none else some a

/-- Gives an acquisition up if it has not come to its end: there was no time to wait, or the time is
up.  Whether a time will ever be up is not looked at here (`Duration.endless`). -/
def settle (t : LockTable K) : Progress K → Except (LockError K) (List K) × LockTable K
  | .done granted => (.ok granted, t)
  | .blocked a key owner =>
    let (_, t') := t.release a.requester a.granted
    (.error (if t.timeout.isZero then .conflict key owner a.requester
      else .timeout key owner a.requester t.timeout), t')

/-- Locks all keys for a transaction or none of them; answers those that had no owner before.  This
is for a requester whom nobody does the favour of giving back a key while it waits, and whose time
comes up in the end. -/
def acquire (t : LockTable K) (x : Transaction) (keys : List K) :
    Except (LockError K) (List K) × LockTable K :=
  let (progress, t) := t.request x keys
  t.settle progress

/-- Asking for a key that is another's changes nothing. -/
theorem attempt_of_blocked {t t' : LockTable K} {x owner : Transaction} {k : K}
    (h : t.attempt x k = (.blocked owner, t')) : t' = t := by
  unfold attempt at h
  split at h
  · cases h
  · split at h
    · cases h
    · split at h <;> cases h
      rfl

/-- A blocked acquisition is still blocked if it is taken up again at once. -/
theorem resume_of_blocked {t t' : LockTable K} {x owner : Transaction} {granted keys : List K}
    {a : Acquisition K} {k : K} (h : t.advance x granted keys = (.blocked a k owner, t')) :
    t'.resume a = (.blocked a k owner, t') := by
  induction keys generalizing t granted with
  | nil => cases h
  | cons b rest ih =>
    unfold advance at h
    split at h
    · exact ih h
    · exact ih h
    · rename_i hb
      cases h
      have ht := attempt_of_blocked hb
      subst ht
      simp [resume, advance, hb]

end LockTable
end ClusterCache
