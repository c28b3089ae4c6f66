/-
# Calls on a lock table, step by step

A call on a lock table is not done at once.  Between two keys of an acquisition, between two runs of a
release and between two stripes of a release of everything the calls of others may do their own steps.
An errand is what a call has still to do; `Errand.step` does the next indivisible part of it, and says
what is left or what the answer is.  An acquisition that fails turns into one that gives back, run by
run, what it was granted.

If nobody comes in between, the steps come to what the operations of the table do at once, and they
end, but for one case: an acquisition that is blocked and whose time is never up asks for its key for
ever (`Errand.ends_iff`).
-/

import ClusterCache.Proofs.Lock.Table

namespace ClusterCache

/-- A call on a lock table. -/
inductive LockCall (K : Type) where
  | acquire (keys : List K)
  | release (keys : List K)
  | releaseAll

/-- The answer to a call. -/
inductive LockReply (K : Type) where
  /-- The keys that had no owner before, or why there are none. -/
  | acquired (answer : Except (LockError K) (List K))
  /-- How many keys were given back. -/
  | released (count : Nat)
  /-- The keys that were given back. -/
  | releasedAll (keys : List K)

/-- Whether it says that the time was up. -/
def LockError.isTimeout {K : Type} : LockError K → Bool
  | .conflict .. => false
  | .timeout .. => true

/-- Whether it says that the time was up. -/
def LockReply.timedOut {K : Type} : LockReply K → Bool
  | .acquired (.error e) => e.isTimeout
  | .acquired (.ok _) | .released _ | .releasedAll _ => false

/-- What a call has still to do. -/
inductive Errand (K : Type) where
  /-- There are keys to ask for; others were granted, which had no owner before. -/
  | asking (pending granted : List K)
  /-- The acquisition failed, and runs of what it was granted are to be given back. -/
  | undoing (e : LockError K) (rest : List (Nat × List K))
  /-- Runs of keys are to be given back, after so many keys. -/
  | giving (count : Nat) (rest : List (Nat × List K))
  /-- All keys of some stripes are to be given back, after those of others. -/
  | givingAll (keys : List K) (rest : List Nat)

variable {K : Type} [DecidableEq K]

namespace LockTable

/-- What a call has to do in the beginning. -/
def begin (t : LockTable K) : LockCall K → Errand K
  | .acquire keys => .asking (distinct keys) []
  | .release keys => .giving 0 (t.runs (distinct keys))
  | .releaseAll => .givingAll [] (List.range t.stripes.size)

/-- Does a call of `x` at once. -/
def perform (t : LockTable K) (x : Transaction) : LockCall K → LockReply K × LockTable K
  | .acquire keys =>
    let (answer, t) := t.acquire x keys
    (.acquired answer, t)
  | .release keys =>
    let (count, t) := t.release x keys
    (.released count, t)
  | .releaseAll =>
    let (keys, t) := t.releaseAll x
    (.releasedAll keys, t)

/-- What an acquisition that failed has still to do: it gives back what it was granted. -/
def fail (t : LockTable K) (e : LockError K) (granted : List K) : Errand K :=
  .undoing e (t.runs (distinct granted))

end LockTable

namespace Errand

variable {x : Transaction} {t t' : LockTable K} {e e' : Errand K} {r : LockReply K}

/-- The next step of an errand of `x`.  Whether the time is up is left open, unless the timeout is
endless; if it is not up, a blocked acquisition has to ask again. -/
def step (up : Bool) (x : Transaction) (t : LockTable K) :
    Errand K → (Errand K ⊕ LockReply K) × LockTable K
  | .asking [] granted => (.inr (.acquired (.ok granted)), t)
  | .asking (k :: rest) granted =>
    match t.attempt x k with
    | (.fresh, t) => (.inl (.asking rest (granted ++ [k])), t)
    | (.reentrant, t) => (.inl (.asking rest granted), t)
    | (.blocked owner, t) =>
      if t.timeout.isZero then (.inl (t.fail (.conflict k owner x) granted), t)
      else if up && !t.timeout.endless then
        (.inl (t.fail (.timeout k owner x t.timeout) granted), t)
      else (.inl (.asking (k :: rest) granted), t)
  | .undoing e [] => (.inr (.acquired (.error e)), t)
  | .undoing e ((i, run) :: rest) => (.inl (.undoing e rest), (t.releaseRun x i run).2)
  | .giving count [] => (.inr (.released count), t)
  | .giving count ((i, run) :: rest) =>
    let (n, t) := t.releaseRun x i run
    (.inl (.giving (count + n) rest), t)
  | .givingAll keys [] => (.inr (.releasedAll keys), t)
  | .givingAll keys (i :: rest) =>
    let (released, t) := t.releaseStripe x i
    (.inl (.givingAll (released ++ keys) rest), t)

/-- What the rest of an errand comes to if it is done at once. -/
def outcome (x : Transaction) (t : LockTable K) : Errand K → LockReply K × LockTable K
  | .asking pending granted =>
    let (progress, t) := t.advance x granted pending
    let (answer, t) := t.settle progress
    (.acquired answer, t)
  | .undoing e rest => (.acquired (.error e), (t.releaseRuns x rest).2)
  | .giving count rest =>
    let (n, t) := t.releaseRuns x rest
    (.released (count + n), t)
  | .givingAll keys rest =>
    let (keys, t) := t.releaseStripes x keys rest
    (.releasedAll keys, t)

/-- Whether it gives back because the time was up. -/
def timedOut : Errand K → Bool
  | .undoing e _ => e.isTimeout
  | .asking .. | .giving .. | .givingAll .. => false

/-- How an errand ends that nobody interrupts, however long it waits. -/
inductive Ends (x : Transaction) : LockTable K → Errand K → LockReply K → LockTable K → Prop
  | last {t t' : LockTable K} {e : Errand K} {r : LockReply K} (up : Bool) :
      e.step up x t = (.inr r, t') → Ends x t e r t'
  | next {t t₁ t' : LockTable K} {e e₁ : Errand K} {r : LockReply K} (up : Bool) :
      e.step up x t = (.inl e₁, t₁) → Ends x t₁ e₁ r t' → Ends x t e r t'

/-- What a step of a call makes of the table is what trying for a key makes of it, giving back a run of
keys, or giving back a stripe.  So a property of tables that these three bring about is one that a step
brings about, if the table had it before. -/
theorem table_step (up : Bool) (x : Transaction) (t : LockTable K) (e : Errand K)
    {Q : LockTable K → Prop} (ht : Q t) (hattempt : ∀ k, Q (t.attempt x k).2)
    (hrun : ∀ i keys, Q (t.releaseRun x i keys).2) (hstripe : ∀ i, Q (t.releaseStripe x i).2) :
    Q (e.step up x t).2 := by
  cases e with
  | asking pending granted =>
    cases pending with
    | nil => exact ht
    | cons k rest =>
      have hk := hattempt k
      simp only [Errand.step]
      rcases ha : t.attempt x k with ⟨_ | _ | owner, t₁⟩ <;> rw [ha] at hk
      · exact hk
      · exact hk
      · simp only
        -- whether the time is up makes a difference to the call alone
        split
        · exact hk
        · split <;> exact hk
  | undoing e rest =>
    cases rest with
    | nil => exact ht
    | cons p rest => exact hrun p.1 p.2
  | giving count rest =>
    cases rest with
    | nil => exact ht
    | cons p rest => exact hrun p.1 p.2
  | givingAll keys rest =>
    cases rest with
    | nil => exact ht
    | cons i rest => exact hstripe i

/-- A step of a call leaves everything as it was that is chosen when a table is made. -/
theorem sameShape_step (up : Bool) (x : Transaction) (t : LockTable K) (e : Errand K) :
    t.SameShape (e.step up x t).2 :=
  e.table_step up x t (.refl t) (t.sameShape_attempt x) (t.sameShape_releaseRun x)
    (t.sameShape_releaseStripe x)

/-- What a call has to do in the beginning comes to what it does at once. -/
theorem outcome_begin (x : Transaction) (t : LockTable K) (call : LockCall K) :
    (t.begin call).outcome x t = t.perform x call := by
  cases call with
  | acquire keys => rfl
  | release keys =>
    simp only [LockTable.begin, outcome, LockTable.perform, LockTable.release, Nat.zero_add]
  | releaseAll => rfl

/-- A blocked acquisition is settled by giving back what it was granted. -/
theorem outcome_fail (x : Transaction) (t : LockTable K) (e : LockError K) (granted : List K) :
    (t.fail e granted).outcome x t = (.acquired (.error e), (t.release x granted).2) := rfl

/-- A blocked acquisition comes to being settled where it stands. -/
theorem outcome_of_blocked {k : K} {owner : Transaction} (rest granted : List K)
    (ha : t.attempt x k = (.blocked owner, t')) :
    (asking (k :: rest) granted).outcome x t =
      (.acquired (t'.settle (.blocked ⟨x, k :: rest, granted⟩ k owner)).1,
        (t'.settle (.blocked ⟨x, k :: rest, granted⟩ k owner)).2) := by
  simp only [outcome, LockTable.advance, ha]

/-- **A step leaves the outcome as it was**, and gives nothing up because the time is up if it never
is. -/
theorem outcome_of_step {up : Bool} (h : e.step up x t = (.inl e', t')) :
    e'.outcome x t' = e.outcome x t ∧ (t.timeout.endless = true → e'.timedOut = e.timedOut) := by
  cases e with
  | asking pending granted =>
    cases pending with
    | nil => cases h
    | cons k rest =>
      simp only [step] at h
      rcases ha : t.attempt x k with ⟨_ | _ | owner, t₁⟩ <;> simp only [ha] at h
      · cases h
        exact ⟨by simp only [outcome, LockTable.advance, ha], fun _ => rfl⟩
      · cases h
        exact ⟨by simp only [outcome, LockTable.advance, ha], fun _ => rfl⟩
      · have hblocked := outcome_of_blocked rest granted ha
        obtain rfl := LockTable.attempt_of_blocked ha
        rw [hblocked]
        split at h
        · rename_i hz
          cases h
          exact ⟨by simp only [outcome_fail, LockTable.settle, if_pos hz], fun _ => rfl⟩
        · rename_i hz
          split at h
          · rename_i hup
            have hends : t₁.timeout.endless = false := by simpa using (Bool.and_eq_true_iff.1 hup).2
            cases h
            refine ⟨by simp only [outcome_fail, LockTable.settle, if_neg hz], fun hendless => ?_⟩
            rw [hends] at hendless
            cases hendless
          · cases h
            exact ⟨hblocked, fun _ => rfl⟩
  | undoing e rest =>
    cases rest with
    | nil => cases h
    | cons p rest =>
      cases h
      exact ⟨rfl, fun _ => rfl⟩
  | giving count rest =>
    cases rest with
    | nil => cases h
    | cons p rest =>
      rcases hr : t.releaseRun x p.1 p.2 with ⟨n, t₁⟩
      simp only [step, hr] at h
      cases h
      exact ⟨by simp only [outcome, LockTable.releaseRuns, hr, Nat.add_assoc], fun _ => rfl⟩
  | givingAll keys rest =>
    cases rest with
    | nil => cases h
    | cons i rest =>
      cases h
      exact ⟨rfl, fun _ => rfl⟩

/-- **The last step answers with the outcome**, and with a timeout only if the errand gives back because
the time was up. -/
theorem outcome_of_answer {up : Bool} (h : e.step up x t = (.inr r, t')) :
    e.outcome x t = (r, t') ∧ r.timedOut = e.timedOut := by
  cases e with
  | asking pending granted =>
    cases pending with
    | nil =>
      cases h
      exact ⟨rfl, rfl⟩
    | cons k rest =>
      simp only [step] at h
      split at h
      · cases h
      · cases h
      · split at h
        · cases h
        · split at h <;> cases h
  | undoing e rest =>
    cases rest with
    | nil =>
      cases h
      exact ⟨rfl, rfl⟩
    | cons p rest => cases h
  | giving count rest =>
    cases rest with
    | nil =>
      cases h
      exact ⟨rfl, rfl⟩
    | cons p rest => cases h
  | givingAll keys rest =>
    cases rest with
    | nil =>
      cases h
      exact ⟨rfl, rfl⟩
    | cons i rest => cases h

/-! ### Timeouts that are never up -/

/-- **A blocked acquisition whose time is never up stays as it is**, step by step, as long as its key
is another's. -/
theorem step_of_blocked_of_endless {k : K} {rest granted : List K} {owner : Transaction} (up : Bool)
    (hendless : t.timeout.endless = true) (ha : t.attempt x k = (.blocked owner, t')) :
    (asking (k :: rest) granted).step up x t = (.inl (.asking (k :: rest) granted), t) := by
  obtain rfl := LockTable.attempt_of_blocked ha
  have hz : t'.timeout.isZero = false := Duration.isZero_of_endless hendless
  simp only [step, ha, hz, hendless, Bool.not_true, Bool.and_false, Bool.false_eq_true, if_false]

/-! ### How errands end -/

/-- An acquisition that failed has given back what it was granted in the end. -/
theorem ends_undoing (x : Transaction) (t : LockTable K) (e : LockError K)
    (rest : List (Nat × List K)) : ∃ r t', Ends x t (.undoing e rest) r t' := by
  induction rest generalizing t with
  | nil => exact ⟨_, _, .last true rfl⟩
  | cons p rest ih =>
    obtain ⟨r, t', h⟩ := ih (t.releaseRun x p.1 p.2).2
    exact ⟨r, t', .next true rfl h⟩

/-- A release of keys ends. -/
theorem ends_giving (x : Transaction) (t : LockTable K) (count : Nat)
    (rest : List (Nat × List K)) : ∃ r t', Ends x t (.giving count rest) r t' := by
  induction rest generalizing t count with
  | nil => exact ⟨_, _, .last true rfl⟩
  | cons p rest ih =>
    obtain ⟨r, t', h⟩ := ih (t.releaseRun x p.1 p.2).2 (count + (t.releaseRun x p.1 p.2).1)
    exact ⟨r, t', .next true rfl h⟩

/-- A release of everything ends. -/
theorem ends_givingAll (x : Transaction) (t : LockTable K) (keys : List K) (rest : List Nat) :
    ∃ r t', Ends x t (.givingAll keys rest) r t' := by
  induction rest generalizing t keys with
  | nil => exact ⟨_, _, .last true rfl⟩
  | cons i rest ih =>
    obtain ⟨r, t', h⟩ := ih (t.releaseStripe x i).2 ((t.releaseStripe x i).1 ++ keys)
    exact ⟨r, t', .next true rfl h⟩

/-- An acquisition ends, unless it comes to having waited for a time that is never up. -/
theorem ends_asking (x : Transaction) (t : LockTable K) (pending granted : List K)
    (h : t.timeout.endless = true → ((asking pending granted).outcome x t).1.timedOut = false) :
    ∃ r t', Ends x t (.asking pending granted) r t' := by
  induction pending generalizing t granted with
  | nil => exact ⟨_, _, .last true rfl⟩
  | cons k rest ih =>
    have hshape := t.sameShape_attempt x k
    rcases ha : t.attempt x k with ⟨_ | _ | owner, t₁⟩ <;> rw [ha] at hshape
    · have hstep : (asking (k :: rest) granted).step true x t =
          (.inl (.asking rest (granted ++ [k])), t₁) := by simp only [step, ha]
      rw [← (outcome_of_step hstep).1, ← hshape.timeout] at h
      obtain ⟨r, t', hends⟩ := ih t₁ (granted ++ [k]) h
      exact ⟨r, t', .next true hstep hends⟩
    · have hstep : (asking (k :: rest) granted).step true x t =
          (.inl (.asking rest granted), t₁) := by simp only [step, ha]
      rw [← (outcome_of_step hstep).1, ← hshape.timeout] at h
      obtain ⟨r, t', hends⟩ := ih t₁ granted h
      exact ⟨r, t', .next true hstep hends⟩
    · by_cases hz : t₁.timeout.isZero = true
      · obtain ⟨r, t', hends⟩ := ends_undoing x t₁ (.conflict k owner x)
          (t₁.runs (LockTable.distinct granted))
        exact ⟨r, t', .next true (by simp only [step, ha, if_pos hz]; rfl) hends⟩
      · -- the time can be up: if it never were, the outcome would tell of a timeout
        have hup : t₁.timeout.endless = false := by
          rw [hshape.timeout, ← Bool.not_eq_true]
          intro hendless
          have hout := h hendless
          rw [outcome_of_blocked rest granted ha, LockTable.settle, if_neg hz] at hout
          cases hout
        obtain ⟨r, t', hends⟩ := ends_undoing x t₁ (.timeout k owner x t₁.timeout)
          (t₁.runs (LockTable.distinct granted))
        refine ⟨r, t', .next true ?_ hends⟩
        simp only [step, ha, if_neg hz, hup, Bool.not_false, Bool.and_true, if_true]
        rfl

/-- An errand that ends is answered with its outcome. -/
theorem Ends.outcome (h : Ends x t e r t') : e.outcome x t = (r, t') := by
  induction h with
  | last up h => exact (outcome_of_answer h).1
  | next up h _ ih => rw [← (outcome_of_step h).1, ih]

/-- An errand does not end because a time was up that never is. -/
theorem Ends.timedOut (h : Ends x t e r t') (hendless : t.timeout.endless = true) :
    r.timedOut = e.timedOut := by
  induction h with
  | last up h => exact (outcome_of_answer h).2
  | @next t t₁ t' e e₁ r up h _ ih =>
    have hshape := sameShape_step up x t e
    rw [h] at hshape
    have hlater : t₁.timeout.endless = true := by rw [hshape.timeout, hendless]
    exact (ih hlater).trans ((outcome_of_step h).2 hendless)

/-- **If nobody comes in between, the steps of a call come to what is done at once**, and they end
exactly if that is not to have waited for a time that is never up. -/
theorem ends_iff {call : LockCall K} :
    Ends x t (t.begin call) r t' ↔ t.perform x call = (r, t') ∧
      (t.timeout.endless = true → r.timedOut = false) := by
  have hbegin : (t.begin call).timedOut = false := by cases call <;> rfl
  rw [← outcome_begin]
  constructor
  · intro h
    exact ⟨h.outcome, fun hendless => (h.timedOut hendless).trans hbegin⟩
  · rintro ⟨hout, hwaits⟩
    have hends : ∃ r t', Ends x t (t.begin call) r t' := by
      cases call with
      | acquire keys =>
        have hr : (Errand.outcome x t (.asking (LockTable.distinct keys) [])).1 = r :=
          congrArg Prod.fst hout
        exact ends_asking x t _ _ (hr ▸ hwaits)
      | release keys => exact ends_giving x t _ _
      | releaseAll => exact ends_givingAll x t _ _
    obtain ⟨r₁, t₁, h₁⟩ := hends
    have heq : (r₁, t₁) = (r, t') := h₁.outcome.symm.trans hout
    cases heq
    exact h₁

end Errand
end ClusterCache
