/-
# Requests that wait for each other

A request that is blocked waits until its key is given back or its time is up.  A waiting room is a
lock table together with the requests that wait for its keys and the time.  All of them wait equally
long, so those who came first are also the first whose time is up; they stand in line in that order.
A request whose time would be up beyond the end of time has no deadline, nor has any that comes after
it, and it waits until its key is given back.

Time does not pass by itself.  It passes when somebody lets it pass (`elapse`), waits for the answer
to a request in line (`join`), or makes a request and stays until it is answered (`acquire`).  Then
those in line take their requests up again, and those whose time is up give them up.  What they give
back may be what another one waits for.  Who stays with a request without a deadline whose key nobody
in line gives back stays for ever (`stay`).  While nobody waits an acquisition is that of the table
(`acquire_of_line_nil`), and what waits for ever is what would be told that its time is up
(`waits_for_ever_iff`).
-/

import ClusterCache.Lock.Handler

namespace ClusterCache

/-- A request that waits. -/
structure Waiter (K : Type) where
  /-- The number by which its answer is known. -/
  number : Nat
  /-- How far the request has come. -/
  acquisition : Acquisition K
  /-- When its time is up, in nanoseconds, if it ever is. -/
  deadline : Option Nat

/-- The answer to a request for keys: those that had no owner before, or why there are none. -/
abbrev LockAnswer (K : Type) : Type := Except (LockError K) (List K)

/-- A lock table with those who wait for its keys. -/
structure WaitingRoom (K : Type) where
  table : LockTable K
  /-- The time, in nanoseconds. -/
  now : Nat
  /-- Who waits, in the order of arrival. -/
  line : List (Waiter K)
  /-- The answers that nobody has asked for yet, by number. -/
  answers : Assoc Nat (LockAnswer K)
  /-- How many requests have entered. -/
  entered : Nat

namespace WaitingRoom

variable {K : Type}

/-- Nobody waits yet. -/
def init (table : LockTable K) : WaitingRoom K := ⟨table, 0, [], .empty, 0⟩

variable [DecidableEq K]

/-- Files the answer to a request. -/
def reply (r : WaitingRoom K) (number : Nat) (answer : LockAnswer K) : WaitingRoom K :=
  { r with answers := r.answers.insert number answer }

/-- Those given take their requests up again, in order; who is still blocked waits on, behind the
line. -/
def wakeEach (r : WaitingRoom K) : List (Waiter K) → WaitingRoom K
  | [] => r
  | w :: rest =>
    match r.table.resume w.acquisition with
    | (.done granted, table) => wakeEach ({ r with table }.reply w.number (.ok granted)) rest
    | (.blocked a _ _, table) =>
      wakeEach { r with table, line := r.line ++ [{ w with acquisition := a }] } rest

/-- All in line take their requests up again. -/
def wake (r : WaitingRoom K) : WaitingRoom K := { r with line := [] }.wakeEach r.line

/-- The time of a request is up: it is taken up once more, and then given up. -/
def giveUp (r : WaitingRoom K) (a : Acquisition K) (deadline : Nat) :
    LockAnswer K × WaitingRoom K :=
  let (progress, table) := r.table.resume a
  let (answer, table) := table.settle progress
  (answer, { r with table, now := max r.now deadline })

/-- The time of the first in line is up, if it ever is. -/
def expireFirst (r : WaitingRoom K) : WaitingRoom K :=
  match r.line with
  | [] => r
  | w :: rest =>
    match w.deadline with
    | none => r
    | some deadline =>
      let (answer, r) := { r with line := rest }.giveUp w.acquisition deadline
      (r.reply w.number answer).wake

/-- Time passes up to a point, in which the time of at most `most` in line is up. -/
def passWithin : (most : Nat) → WaitingRoom K → (point : Nat) → WaitingRoom K
  | 0, r, point => { r with now := max r.now point }
  | most + 1, r, point =>
    match r.line with
    | [] => { r with now := max r.now point }
    | w :: _ =>
      if w.deadline.any (· ≤ point) then passWithin most r.expireFirst point
      else { r with now := max r.now point }

/-- A span of time passes. -/
def elapse (r : WaitingRoom K) (d : Duration) : WaitingRoom K :=
  passWithin r.line.length r.wake (r.now + d.nanos)

/-- A request enters and is answered under its number, sooner or later. -/
def enter (r : WaitingRoom K) (x : Transaction) (keys : List K) : Nat × WaitingRoom K :=
  let number := r.entered
  let r := { r.wake with entered := number + 1 }
  let (progress, table) := r.table.request x keys
  (number, match table.waits? progress with
    | some a => { r with table, line := r.line ++ [⟨number, a, table.timeout.deadline? r.now⟩] }
    | none =>
      let (answer, table) := table.settle progress
      { r with table }.reply number answer)

/-- Waits for an answer while the time of at most `most` in line runs out. -/
def joinWithin : (most : Nat) → WaitingRoom K → (number : Nat) →
    Option (LockAnswer K) × WaitingRoom K
  | most, r, number =>
    match r.answers.get? number with
    | some answer => (some answer, { r with answers := r.answers.erase number })
    | none =>
      match most with
      | 0 => (none, r)
      | most + 1 => joinWithin most r.expireFirst number

/-- Waits for the answer to the request with a number; there is none if no such request entered, its
answer was fetched before, or it waits for ever. -/
def join (r : WaitingRoom K) (number : Nat) : Option (LockAnswer K) × WaitingRoom K :=
  joinWithin r.line.length r.wake number

/-- Stays with a request until it is answered, while the time of at most `most` in line runs out.
They came before, so their time is up before that of the request.  If it is still blocked then and
has no deadline, it waits for ever, and that is all there is to say. -/
def stayWithin : (most : Nat) → WaitingRoom K → Acquisition K → (deadline : Option Nat) →
    (LockAnswer K ⊕ Acquisition K) × WaitingRoom K
  | most, r, a, deadline =>
    match r.table.resume a with
    | (.done granted, table) => (.inl (.ok granted), { r with table })
    | (.blocked a _ _, table) =>
      let r := { r with table }
      match most, r.line with
      | most + 1, _ :: _ => stayWithin most r.expireFirst a deadline
      | _, _ =>
        match deadline with
        | none => (.inr a, r)
        | some deadline =>
          let (answer, r) := r.giveUp a deadline
          (.inl answer, r)

/-- Makes a request, and waits for keys of others if there is time to wait: the answer, or the
acquisition that waits for ever. -/
def stay (r : WaitingRoom K) (x : Transaction) (keys : List K) :
    (LockAnswer K ⊕ Acquisition K) × WaitingRoom K :=
  let (progress, table) := r.table.request x keys
  match table.waits? progress with
  | some a => stayWithin r.line.length { r with table }.wake a (r.table.timeout.deadline? r.now)
  | none =>
    let (answer, table) := table.settle progress
    (.inl answer, { r with table })

/-- Locks all keys for a transaction or none of them.  An acquisition that would wait for ever is
given up at once, as nobody would come to see its answer. -/
def acquire (r : WaitingRoom K) (x : Transaction) (keys : List K) :
    LockAnswer K × WaitingRoom K :=
  match r.stay x keys with
  | (.inl answer, r) => (answer, r)
  | (.inr a, r) => r.giveUp a r.now

/-- Gives back those of the keys given that a transaction owns; answers how many. -/
def release (r : WaitingRoom K) (x : Transaction) (keys : List K) : Nat × WaitingRoom K :=
  let (n, table) := r.table.release x keys
  (n, { r with table })

/-- Gives back all that a transaction owns; answers the keys. -/
def releaseAll (r : WaitingRoom K) (x : Transaction) : List K × WaitingRoom K :=
  let (keys, table) := r.table.releaseAll x
  (keys, { r with table })

/-- The handler that keeps locks in a waiting room. -/
def handler (key : K → Text.Outline) : Handler K (WaitingRoom K) Unit :=
  .locking key acquire release

/-- While nobody waits, an acquisition is that of the table. -/
theorem acquire_of_line_nil {r : WaitingRoom K} (h : r.line = []) (x : Transaction)
    (keys : List K) : (r.acquire x keys).1 = (r.table.acquire x keys).1 ∧
      (r.acquire x keys).2.table = (r.table.acquire x keys).2 := by
  unfold acquire stay LockTable.acquire
  rcases hp : r.table.request x keys with ⟨p, t⟩
  cases p with
  | done granted => exact ⟨rfl, rfl⟩
  | blocked a k owner =>
    have hr := LockTable.resume_of_blocked hp
    by_cases hz : t.timeout.isZero
    · simp [LockTable.waits?, hz]
    · cases r.table.timeout.deadline? r.now <;>
        simp [LockTable.waits?, hz, h, wake, wakeEach, stayWithin, giveUp, hr]

/-- **While nobody waits, an acquisition waits for ever exactly if the table would answer that its
time is up, and it has no deadline.** -/
theorem waits_for_ever_iff {r : WaitingRoom K} (h : r.line = []) (x : Transaction)
    (keys : List K) : (∃ a, (r.stay x keys).1 = .inr a) ↔
      (∃ k owner y d, (r.table.acquire x keys).1 = .error (.timeout k owner y d)) ∧
        r.table.timeout.deadline? r.now = none := by
  unfold stay LockTable.acquire
  rcases hp : r.table.request x keys with ⟨p, t⟩
  cases p with
  | done granted => simp [LockTable.waits?, LockTable.settle]
  | blocked a k owner =>
    have hr := LockTable.resume_of_blocked hp
    by_cases hz : t.timeout.isZero
    · simp [LockTable.waits?, LockTable.settle, hz]
    · cases r.table.timeout.deadline? r.now <;>
        simp [LockTable.waits?, LockTable.settle, hz, h, wake, wakeEach, stayWithin, hr]

end WaitingRoom
end ClusterCache
