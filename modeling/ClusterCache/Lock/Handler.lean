/-
# Handlers of commands

A handler processes commands, one function for each kind of command, with a state of its own and the
context of the invocation.  A command hands itself to the function for its kind and passes on what
comes of it, faults included.  `Handler.locking` is the handler that keeps locks, whatever they are
kept in: what it grants and what it frees it notes in the context.
-/

import ClusterCache.Lock.Context
import ClusterCache.Lock.Request
import ClusterCache.Lock.Table

namespace ClusterCache

/-- A handler with a state of type `σ` whose answers are of type `α`. -/
structure Handler (K σ α : Type) where
  /-- Processes a request for locks. -/
  lockRequest : σ → Context K → LockRequest K → Except Fault α × Context K × σ

/-- Hands a request to a handler. -/
def LockRequest.accept {K σ α : Type} (r : LockRequest K) (h : Handler K σ α) (s : σ)
    (c : Context K) : Except Fault α × Context K × σ :=
  h.lockRequest s c r

namespace Handler

variable {K : Type}

/-- Refuses everything with the same fault. -/
def refusing (α : Type) (f : Fault) : Handler K Unit α where
  lockRequest s c _ := (.error f, c, s)

variable [DecidableEq K]

/-- Notes requested keys in the context as if they had been locked or unlocked, and answers how many
there are. -/
def noting : Handler K Unit Nat where
  lockRequest s c r :=
    (.ok r.keys.length, if r.isLock then c.lock r.keys else c.unlock r.keys, s)

/-- The handler that keeps locks with the functions given; `key` outlines a key.  A request without
keys does nothing.  Keys that the transaction owned before are noted too. -/
def locking {σ : Type} (key : K → Text.Outline)
    (acquire : σ → Transaction → List K → Except (LockError K) (List K) × σ)
    (release : σ → Transaction → List K → Nat × σ) : Handler K σ Unit where
  lockRequest s c r :=
    if r.keys.isEmpty then (.ok (), c, s)
    else match r.mode with
      | .acquire =>
        match acquire s r.boundary.transaction r.keys with
        | (.ok _, s) => (.ok (), c.lock r.keys, s)
        | (.error e, s) => (.error (e.toFault key), c, s)
      | .release => (.ok (), c.unlock r.keys, (release s r.boundary.transaction r.keys).2)

end Handler

/-- The handler that keeps locks in a table. -/
def LockTable.handler {K : Type} [DecidableEq K] (key : K → Text.Outline) :
    Handler K (LockTable K) Unit :=
  .locking key LockTable.acquire LockTable.release

end ClusterCache
