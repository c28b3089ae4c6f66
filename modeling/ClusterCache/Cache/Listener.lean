/-
# Listening to a cache

A listener is told of every departure, and may make calls on the same cache in return, before the
next departure is told.  Those calls send further records away, of which the listener is told in
turn.  Nothing else happens in between: a departure is told with the cache as the calls so far have
left it.

A session is a cache with its listener.  Work that remains is an agenda of calls and departures; the
first item is done, and what it brings about goes in front of the rest.  A listener makes finitely
many calls in all, which its `budget` witnesses, so every agenda comes to an end.
-/

import ClusterCache.Total
import ClusterCache.Cache.Call

namespace ClusterCache

/-- Someone who is told of departures and makes calls in return. -/
structure Listener {K : Type} (S : Strategy K) (V : Type) where
  State : Type
  /-- What the listener does when told of a departure. -/
  react : State → Departure K V → State × List (Call S V)
  /-- A bound on how often the listener still makes calls. -/
  budget : State → Nat
  /-- Whoever makes calls has a smaller budget afterwards. -/
  budget_react : ∀ s d, budget (react s d).1 < budget s ∨
    (react s d).2 = [] ∧ budget (react s d).1 = budget s

/-- A cache with its listener. -/
structure Session {K V : Type} [DecidableEq K] {S : Strategy K} (L : Listener S V) where
  cache : Cache S V
  listener : L.State
  /-- The departures told so far, the latest first. -/
  log : List (Departure K V)

/-- Work that remains to be done. -/
inductive Task {K : Type} (S : Strategy K) (V : Type) where
  /-- A call to perform. -/
  | call (c : Call S V)
  /-- A departure to tell. -/
  | tell (d : Departure K V)

namespace Task

variable {K V : Type} {S : Strategy K}

/-- Whether a task is a call. -/
def isCall : Task S V → Bool
  | call _ => true
  | tell _ => false

/-- The number of calls on an agenda. -/
def calls (agenda : List (Task S V)) : Nat := agenda.countP isCall

/-- Telling of departures is not calling. -/
theorem calls_map_tell (ds : List (Departure K V)) : calls (ds.map (Task.tell (S := S))) = 0 := by
  simp [calls, isCall]

end Task

namespace Session

variable {K V : Type} [DecidableEq K] {S : Strategy K} {L : Listener S V}

/-- Works off an agenda. -/
def run (s : Session L) (agenda : List (Task S V)) : Session L :=
  match agenda with
  | [] => s
  | .call c :: rest =>
    let (_, out, cache) := s.cache.perform c
    run { s with cache } (out.map .tell ++ rest)
  | .tell d :: rest =>
    match h : L.react s.listener d with
    | (listener, calls) =>
      run { s with listener, log := d :: s.log } (calls.map .call ++ rest)
termination_by (L.budget s.listener, Task.calls agenda, agenda.length)
decreasing_by
  · refine Prod.Lex.right _ (Prod.Lex.left _ _ ?_)
    simp only [Task.calls, List.countP_append, List.countP_cons, Task.isCall, if_true]
    have := Task.calls_map_tell (S := S) out
    simp only [Task.calls] at this
    omega
  · have hb := L.budget_react s.listener d
    rw [h] at hb
    rcases hb with hb | ⟨hc, hb⟩
    · exact Prod.Lex.left _ _ hb
    · simp only at hc hb
      subst hc
      simp only [hb]
      refine Prod.Lex.right _ ?_
      have : Task.calls (Task.tell d :: rest) = Task.calls (S := S) (V := V) rest := by
        simp [Task.calls, Task.isCall]
      rw [this]
      exact Prod.Lex.right _ (by simp)

/-- Makes a call and tells of all that it brings about. -/
def call (s : Session L) (c : Call S V) : Answer K V × Session L :=
  let (answer, out, cache) := s.cache.perform c
  (answer, run { s with cache } (out.map .tell))

/-- Takes all records out for the last time: they are told, but no more calls are made. -/
def close (s : Session L) : Session L :=
  let (out, cache) := s.cache.clear
  { s with cache, log := out.reverse ++ s.log }

/-- Sweeps until the cache is within its bound, but not more than `most` times. -/
def sweepWithin : (most : Nat) → Session L → Session L
  | 0, s => s
  | most + 1, s => if s.cache.overflow = 0 then s else sweepWithin most (s.call .sweep).2

/-- Waits until the background sweeper has brought the cache to its bound, but not longer than
`limit`. -/
def awaitBound (s : Session L) (limit : Duration) : Session L :=
  sweepWithin (s.cache.controller.elapse limit).1 s

/-- The departures told since the log was `before` long, the earliest first. -/
def since (s : Session L) (before : Nat) : List (Departure K V) :=
  (s.log.take (s.log.length - before)).reverse

end Session

/-! ### Listeners by rules -/

/-- A rule: on a departure for the reason given, and of the key given if there is one, make calls;
but only so many times. -/
structure Rule {K : Type} (S : Strategy K) (V : Type) where
  reason : Reason
  key : Option K
  times : Nat
  calls : List (Call S V)

namespace Rule

variable {K V : Type} {S : Strategy K} [DecidableEq K]

/-- Whether a rule has times left and speaks of a departure. -/
def applies (r : Rule S V) (d : Departure K V) : Bool :=
  0 < r.times && r.reason = d.reason &&
    match r.key with
    | none => true
    | some k => k = d.record.key

/-- Uses the first rule that applies. -/
def react : List (Rule S V) → Departure K V → List (Rule S V) × List (Call S V)
  | [], _ => ([], [])
  | r :: rest, d =>
    if r.applies d then ({ r with times := r.times - 1 } :: rest, r.calls)
    else
      let (rest, calls) := react rest d
      (r :: rest, calls)

/-- How often the rules can still be used. -/
def budget (rules : List (Rule S V)) : Nat := total Rule.times rules

/-- A reaction is paid for: the budget falls, or no call is made. -/
theorem budget_react (rules : List (Rule S V)) (d : Departure K V) :
    budget (react rules d).1 < budget rules ∨
      (react rules d).2 = [] ∧ budget (react rules d).1 = budget rules := by
  induction rules with
  | nil => exact Or.inr ⟨rfl, rfl⟩
  | cons r rest ih =>
    unfold react
    split
    · rename_i h
      simp only [applies, Bool.and_eq_true, decide_eq_true_eq] at h
      left
      simp only [budget, total_cons]
      omega
    · simp only [budget, total_cons] at ih ⊢
      rcases ih with ih | ⟨h, ih⟩
      · left; omega
      · exact Or.inr ⟨h, by omega⟩

end Rule

/-- The listener that follows rules. -/
def Listener.ofRules {K : Type} [DecidableEq K] (S : Strategy K) (V : Type) : Listener S V where
  State := List (Rule S V)
  react := Rule.react
  budget := Rule.budget
  budget_react := Rule.budget_react

end ClusterCache
