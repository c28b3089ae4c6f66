/-
# Requests for locks

A request asks, within the boundary of a transaction, to lock or to unlock keys.  The keys keep the
order in which they were given, and a key may be given twice.
-/

import ClusterCache.Lock.Transaction

namespace ClusterCache

open Text (Outline)

/-- What a request asks for. -/
inductive LockMode where
  /-- Lock the keys. -/
  | acquire
  /-- Unlock the keys. -/
  | release
  deriving DecidableEq, Repr

namespace LockMode

/-- Both modes. -/
def all : List LockMode := [acquire, release]

/-- The name of a mode. -/
def name : LockMode → String
  | acquire => "Acquire"
  | release => "Release"

/-- The mode with this name. -/
def ofName? (s : String) : Option LockMode := all.find? fun m => m.name = s

/-- A mode is written as its name. -/
def toJson (m : LockMode) : Json := .string m.name

/-- Reads a mode. -/
def ofJson? (j : Json) : Option LockMode := j.choice?.bind ofName?

end LockMode

/-- A request to lock or to unlock keys. -/
structure LockRequest (K : Type) where
  boundary : Boundary
  keys : List K
  mode : LockMode
  deriving DecidableEq, Repr

namespace LockRequest

variable {K : Type}

/-- The number of this kind of command.  A request never travels on its own, so none is taken. -/
def commandId : Nat := 0

/-- Whether the request locks its keys. -/
def isLock (r : LockRequest K) : Bool := r.mode = .acquire

/-- Whether the request unlocks its keys. -/
def isUnlock (r : LockRequest K) : Bool := !r.isLock

/-- The request on one line. -/
def text (key : K → Outline) (r : LockRequest K) : String :=
  (Outline.record "LockRequest" [
    ("mode", .word r.mode.name),
    ("keys", .list (r.keys.map key)),
    ("gtx", .word r.boundary.transaction.text)]).line

/-- The parts of a request. -/
def outline (key : K → Outline) (r : LockRequest K) : Outline :=
  .record "LockRequest" [
    ("boundary", r.boundary.outline),
    ("keys", .list (r.keys.map key)),
    ("mode", .word r.mode.name)]

end LockRequest
end ClusterCache
