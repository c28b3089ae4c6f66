/-
# What a step of a call may do

A step of a call asks for a key, or gives back a run of keys or a stripe of them, or answers.
`Errand.Moves` lists what comes of it, as far as owners tell: which keys are taken or freed, and what is
left of the errand.  Every step is one of these (`moves_step`), so whatever is to be kept by all steps
is looked at for each of them once.

Two things can be said without knowing more of the call.  A key is taken away from its owner only by
a step that gives back (`Moves.kept`), and a key that has an owner is not granted as one that had none
(`Moves.mem_own`).
-/

import ClusterCache.Proofs.Lock.Errand

namespace ClusterCache

variable {K : Type} [DecidableEq K] {x y : Transaction} {k : K} {t t' : LockTable K}

namespace Errand

variable {e e' : Errand K} {r : Errand K ⊕ LockReply K}

/-- The runs that are still to be given back are each of one stripe. -/
def InStripes (t : LockTable K) : Errand K → Prop
  | .asking _ _ => True
  | .undoing _ rest => t.InStripes rest
  | .giving _ rest => t.InStripes rest
  | .givingAll _ _ => True

/-- What the next step of an errand of `x` may be. -/
inductive Moves (x : Transaction) (t : LockTable K) :
    Errand K → Errand K ⊕ LockReply K → LockTable K → Prop
  | grant (granted : List K) :
      Moves x t (.asking [] granted) (.inr (.acquired (.ok granted))) t
  /-- The key has no owner. -/
  | take {k : K} {t' : LockTable K} (rest granted : List K) : LockTable.Takes x (· = k) t t' →
      Moves x t (.asking (k :: rest) granted) (.inl (.asking rest (granted ++ [k]))) t'
  /-- The key is the requester's already. -/
  | pass {k : K} (rest granted : List K) : t.owner? k = some x →
      Moves x t (.asking (k :: rest) granted) (.inl (.asking rest granted)) t
  /-- The key is another's, and there is time left. -/
  | wait (pending granted : List K) :
      Moves x t (.asking pending granted) (.inl (.asking pending granted)) t
  | fail (pending granted : List K) (e : LockError K) :
      Moves x t (.asking pending granted) (.inl (t.fail e granted)) t
  | refuse (e : LockError K) : Moves x t (.undoing e []) (.inr (.acquired (.error e))) t
  | undo {t' : LockTable K} (e : LockError K) (i : Nat) (run : List K) (rest : List (Nat × List K)) :
      LockTable.Frees x (· ∈ run) t t' →
      Moves x t (.undoing e ((i, run) :: rest)) (.inl (.undoing e rest)) t'
  | released (n : Nat) : Moves x t (.giving n []) (.inr (.released n)) t
  | give {t' : LockTable K} (n m i : Nat) (run : List K) (rest : List (Nat × List K)) :
      LockTable.Frees x (· ∈ run) t t' →
      Moves x t (.giving n ((i, run) :: rest)) (.inl (.giving m rest)) t'
  | releasedAll (keys : List K) : Moves x t (.givingAll keys []) (.inr (.releasedAll keys)) t
  | giveAll {t' : LockTable K} (keys keys' : List K) (i : Nat) (rest : List Nat) :
      LockTable.Frees x (fun k => t.stripeOf k = i) t t' →
      Moves x t (.givingAll keys (i :: rest)) (.inl (.givingAll keys' rest)) t'

/-- **Every step is one of these.** -/
theorem moves_step (ht : 0 < t.stripes.size) (he : e.InStripes t) (up : Bool) (x : Transaction) :
    Moves x t e (e.step up x t).1 (e.step up x t).2 := by
  cases e with
  | asking pending granted =>
    cases pending with
    | nil => exact .grant granted
    | cons a rest =>
      simp only [step]
      rcases LockTable.attempt_cases ht x a with ⟨hfst, htakes⟩ | ⟨heq, howned⟩ | ⟨y, heq, -, -⟩
      · rcases hp : t.attempt x a with ⟨g, t₁⟩
        rw [hp] at hfst htakes
        obtain rfl : g = .fresh := hfst
        exact .take rest granted htakes
      · rw [heq]
        exact .pass rest granted howned
      · rw [heq]
        simp only
        split
        · exact .fail _ granted _
        · split
          · exact .fail _ granted _
          · exact .wait _ granted
  | undoing e rest =>
    cases rest with
    | nil => exact .refuse e
    | cons p rest =>
      have hrun := (LockTable.inStripes_cons_iff.1 he).1
      exact .undo e p.1 p.2 rest (LockTable.frees_releaseRun hrun x)
  | giving n rest =>
    cases rest with
    | nil => exact .released n
    | cons p rest =>
      have hrun := (LockTable.inStripes_cons_iff.1 he).1
      exact .give n _ p.1 p.2 rest (LockTable.frees_releaseRun hrun x)
  | givingAll keys rest =>
    cases rest with
    | nil => exact .releasedAll keys
    | cons i rest => exact .giveAll keys _ i rest (t.frees_releaseStripe x i)

/-! ### Who keeps what -/

/-- **A step takes a key away from nobody but its own transaction**, and from that only if it gives
back. -/
theorem Moves.kept (h : Moves x t e r t') (hk : t.owner? k = some y) : t'.owner? k = some y ∨
    y = x ∧ t'.owner? k = none ∧ ((∃ n rest, e = .giving n rest) ∨
      (∃ keys rest, e = .givingAll keys rest) ∨
        ∃ e' i run rest, e = .undoing e' ((i, run) :: rest) ∧ k ∈ run) := by
  have hfrees : ∀ P : K → Prop, LockTable.Frees x P t t' →
      t'.owner? k = some y ∨ y = x ∧ t'.owner? k = none ∧ P k := fun P hfrees => by
    by_cases hP : y = x ∧ P k
    · obtain ⟨rfl, hP⟩ := hP
      exact Or.inr ⟨rfl, hfrees.eq_none hk hP, hP⟩
    · exact Or.inl ((hfrees k y).2 ⟨hk, hP⟩)
  cases h with
  | take rest granted htakes => exact Or.inl (htakes.mono hk)
  | undo e i run rest h =>
    refine (hfrees _ h).imp id fun ⟨hy, hnone, hrun⟩ => ⟨hy, hnone, Or.inr (Or.inr ?_)⟩
    exact ⟨e, i, run, rest, rfl, hrun⟩
  | give n m i run rest h =>
    exact (hfrees _ h).imp id fun ⟨hy, hnone, _⟩ => ⟨hy, hnone, Or.inl ⟨_, _, rfl⟩⟩
  | giveAll keys keys' i rest h =>
    exact (hfrees _ h).imp id fun ⟨hy, hnone, _⟩ => ⟨hy, hnone, Or.inr (Or.inl ⟨_, _, rfl⟩)⟩
  | grant | pass | wait | fail | refuse | released | releasedAll => exact Or.inl hk

/-- What an acquisition was granted and gives back if it fails. -/
def own : Errand K → List K
  | .asking _ granted => granted
  | .undoing _ rest => rest.flatMap Prod.snd
  | .giving _ _ => []
  | .givingAll _ _ => []

/-- A key that has an owner does not come to be given back by an acquisition that fails. -/
theorem Moves.mem_own (h : Moves x t e r t') (hr : r = .inl e') (hk : t.owner? k ≠ none)
    (hmem : k ∈ e'.own) : k ∈ e.own := by
  cases h with
  | take rest granted htakes =>
    cases hr
    rcases List.mem_append.1 hmem with hmem | hmem
    · exact hmem
    · have hnone : t.owner? k = none := htakes.fresh k (List.mem_singleton.1 hmem)
      exact absurd hnone hk
  | fail pending granted e =>
    cases hr
    rwa [LockTable.fail, own, LockTable.flatMap_runs, LockTable.mem_distinct] at hmem
  | undo e i run rest hfrees =>
    cases hr
    exact List.mem_append_right _ hmem
  | pass rest granted hx =>
    cases hr
    exact hmem
  | wait pending granted =>
    cases hr
    exact hmem
  | give | giveAll =>
    cases hr
    cases hmem
  | grant | refuse | released | releasedAll => cases hr

end Errand
end ClusterCache
