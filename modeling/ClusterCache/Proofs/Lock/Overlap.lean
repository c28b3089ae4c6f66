/-
# Calls of one transaction at the same time

Any number of the parties to a contention may act for the same transaction.  Then a lock that was
granted is worth less than if each has a transaction of its own.  A key is granted once more to a
transaction that owns it already, but nobody counts how often; and an acquisition that fails gives
back what it was granted itself, whoever of its transaction has been granted it meanwhile
(`granted_lost`).

Besides a release there is no other way to lose a key (`granted_kept`).  From the turn in which an
acquisition asks for it the key is the transaction's, until a release takes it away, or an acquisition
of another party fails that was granted the key before that turn.  For no key that has an owner is
granted as one without (`Holds.of_turn`), so who has it to give back now had it to give back then.

What a turn may do is said once, in `Turned`, as `Errand.Moves` says it of a step of a call.
-/

import Mathlib.Data.Nat.Init
import Mathlib.Tactic.IntervalCases
import ClusterCache.Proofs.Lock.Contention

namespace ClusterCache

variable {ι K : Type} [DecidableEq K] {x y : Transaction} {k : K} {t t' : LockTable K}

/-! ### Calls -/

namespace Visit

variable {v : Visit K} {e : Errand K}

/-- What is left of a call is a part of it. -/
inductive Fits (t : LockTable K) : Visit K → Prop
  | asking (keys pending granted : List K) (found : LockTable K) :
      Fits t ⟨.acquire keys, found, .asking pending granted⟩
  | undoing (keys : List K) (found : LockTable K) (e : LockError K) {rest : List (Nat × List K)} :
      t.InStripes rest → Fits t ⟨.acquire keys, found, .undoing e rest⟩
  | giving (keys : List K) (found : LockTable K) (n : Nat) {rest : List (Nat × List K)} :
      t.InStripes rest → Fits t ⟨.release keys, found, .giving n rest⟩
  | givingAll (keys : List K) (found : LockTable K) (rest : List Nat) :
      Fits t ⟨.releaseAll, found, .givingAll keys rest⟩

/-- What a call has to do in the beginning is all of it. -/
theorem fits_begin (t : LockTable K) (call : LockCall K) : Fits t ⟨call, t, t.begin call⟩ := by
  cases call with
  | acquire keys => exact .asking ..
  | release keys => exact .giving _ _ _ (t.inStripes_runs _)
  | releaseAll => exact .givingAll ..

omit [DecidableEq K] in
/-- What is left of a call depends only on the shape of the table. -/
theorem Fits.of_sameShape (h : v.Fits t) (hs : t.SameShape t') : v.Fits t' := by
  cases h with
  | asking => exact .asking ..
  | undoing keys found e hrest => exact .undoing _ _ _ (hrest.of_sameShape hs)
  | giving keys found n hrest => exact .giving _ _ _ (hrest.of_sameShape hs)
  | givingAll => exact .givingAll ..

omit [DecidableEq K] in
/-- What a call has still to give back is in the stripes where it is looked for. -/
theorem Fits.inStripes (h : v.Fits t) : v.errand.InStripes t := by
  cases h with
  | asking | givingAll => trivial
  | undoing keys found e hrest => exact hrest
  | giving keys found n hrest => exact hrest

/-- A step leaves a part of the call. -/
theorem Fits.step (h : v.Fits t) (hmoves : Errand.Moves x t v.errand (.inl e) t') :
    Fits t { v with errand := e } := by
  cases h with
  | asking keys pending granted found =>
    cases hmoves with
    | take | pass | wait => exact .asking ..
    | fail => exact .undoing _ _ _ (t.inStripes_runs _)
  | undoing keys found e hrest =>
    cases hmoves with
    | undo e i run rest =>
      have hleft : t.InStripes rest := (LockTable.inStripes_cons_iff.1 hrest).2
      exact .undoing _ _ _ hleft
  | giving keys found n hrest =>
    cases hmoves with
    | give n m i run rest =>
      have hleft : t.InStripes rest := (LockTable.inStripes_cons_iff.1 hrest).2
      exact .giving _ _ _ hleft
  | givingAll =>
    cases hmoves with
    | giveAll => exact .givingAll ..

end Visit

/-! ### Turns -/

namespace Contention

variable [DecidableEq ι] {who : ι → Transaction} {w w' : Contention ι K} {p : ι × Turn K} {i j : ι}
  {keys pending : List K}

/-- There is a stripe, and what is left of each call is a part of it. -/
structure Fits (w : Contention ι K) : Prop where
  size : 0 < w.table.stripes.size
  visits : ∀ i v, w.visits i = some v → v.Fits w.table

/-- What a turn may do. -/
inductive Turned (who : ι → Transaction) (w : Contention ι K) :
    ι × Turn K → Contention ι K → Prop
  /-- There is nothing to do. -/
  | idle (p : ι × Turn K) : Turned who w p w
  | ask {w' : Contention ι K} {i : ι} (call : LockCall K) : w'.table = w.table →
      w'.visits = Function.update w.visits i (some ⟨call, w.table, w.table.begin call⟩) →
      Turned who w (i, .ask call) w'
  | goOn {w' : Contention ι K} {i : ι} {v : Visit K} {e : Errand K} (up : Bool) :
      w.visits i = some v → Errand.Moves (who i) w.table v.errand (.inl e) w'.table →
      w'.visits = Function.update w.visits i (some { v with errand := e }) →
      Turned who w (i, .go up) w'
  | answer {w' : Contention ι K} {i : ι} {v : Visit K} {r : LockReply K} (up : Bool) :
      w.visits i = some v → Errand.Moves (who i) w.table v.errand (.inr r) w'.table →
      w'.visits = Function.update w.visits i none → Turned who w (i, .go up) w'

/-- Every turn does one of these things, and what is left of each call is still a part of it. -/
theorem Fits.turned (h : w.Fits) (who : ι → Transaction) (p : ι × Turn K) :
    Turned who w p (w.turn who p) ∧ (w.turn who p).Fits := by
  have hshape := w.sameShape_turn who p
  have hsize : 0 < (w.turn who p).table.stripes.size := hshape.size.symm ▸ h.size
  obtain ⟨i, call | up⟩ := p
  · simp only [turn] at hshape hsize ⊢
    split
    · refine ⟨.ask call rfl rfl, h.size, fun j v hj => ?_⟩
      rcases update_eq_some_iff.1 hj with ⟨-, heq⟩ | ⟨-, hj⟩
      · cases heq
        exact Visit.fits_begin _ _
      · exact h.visits j v hj
    · exact ⟨.idle _, h⟩
  · simp only [turn] at hshape hsize ⊢
    split
    · exact ⟨.idle _, h⟩
    · rename_i v hv
      rw [hv] at hshape hsize
      have hfits := h.visits i v hv
      have hmoves := Errand.moves_step h.size hfits.inStripes up (who i)
      rcases hstep : v.errand.step up (who i) w.table with ⟨e | r, t⟩ <;>
        rw [hstep] at hmoves <;> simp only [hstep] at hshape hsize
      · refine ⟨.goOn up hv hmoves rfl, hsize, fun j v' hj => ?_⟩
        rcases update_eq_some_iff.1 hj with ⟨-, heq⟩ | ⟨-, hj⟩
        · cases heq
          exact (hfits.step hmoves).of_sameShape hshape
        · exact (h.visits j v' hj).of_sameShape hshape
      · refine ⟨.answer up hv hmoves rfl, hsize, fun j v' hj => ?_⟩
        rcases update_eq_some_iff.1 hj with ⟨-, heq⟩ | ⟨-, hj⟩
        · cases heq
        · exact (h.visits j v' hj).of_sameShape hshape

/-- Where a call comes from that is under way after a turn. -/
theorem Turned.visit {v' : Visit K} (h : Turned who w p w') (hv' : w'.visits j = some v') :
    w.visits j = some v' ∨ (∃ call, v' = ⟨call, w.table, w.table.begin call⟩) ∨
      ∃ up v e, p = (j, .go up) ∧ w.visits j = some v ∧
        Errand.Moves (who j) w.table v.errand (.inl e) w'.table ∧ v' = { v with errand := e } := by
  cases h with
  | idle => exact Or.inl hv'
  | ask call htable hvisits =>
    rw [hvisits] at hv'
    rcases update_eq_some_iff.1 hv' with ⟨-, heq⟩ | ⟨-, hj⟩
    · exact Or.inr (Or.inl ⟨call, (Option.some.inj heq).symm⟩)
    · exact Or.inl hj
  | goOn up hv hmoves hvisits =>
    rw [hvisits] at hv'
    rcases update_eq_some_iff.1 hv' with ⟨rfl, heq⟩ | ⟨-, hj⟩
    · exact Or.inr (Or.inr ⟨up, _, _, rfl, hv, hmoves, (Option.some.inj heq).symm⟩)
    · exact Or.inl hj
  | answer up hv hmoves hvisits =>
    rw [hvisits] at hv'
    rcases update_eq_some_iff.1 hv' with ⟨-, heq⟩ | ⟨-, hj⟩
    · cases heq
    · exact Or.inl hj

/-- Only a step of a call changes the table. -/
theorem Turned.table (h : Turned who w p w') : w'.table = w.table ∨ ∃ j up v r,
    p = (j, .go up) ∧ w.visits j = some v ∧ Errand.Moves (who j) w.table v.errand r w'.table := by
  cases h with
  | idle => exact Or.inl rfl
  | ask call htable hvisits => exact Or.inl htable
  | goOn up hv hmoves hvisits => exact Or.inr ⟨_, up, _, _, rfl, hv, hmoves⟩
  | answer up hv hmoves hvisits => exact Or.inr ⟨_, up, _, _, rfl, hv, hmoves⟩

/-- The others stay where they are with their calls. -/
theorem visits_turn_of_ne {o : Turn K} (hij : j ≠ i) : (w.turn who (i, o)).visits j = w.visits j := by
  cases o with
  | ask call =>
    simp only [turn]
    split
    · exact Function.update_of_ne hij ..
    · rfl
  | go up =>
    simp only [turn]
    split
    · rfl
    · split <;> exact Function.update_of_ne hij ..

/-- Party `i` has an acquisition of `keys` under way, and has still to ask for those pending. -/
def Asking (w : Contention ι K) (i : ι) (keys pending : List K) : Prop :=
  ∃ v granted, w.visits i = some v ∧ v.call = .acquire keys ∧ v.errand = .asking pending granted

/-- Party `i` has an acquisition under way that was granted `k` when nobody owned it, and gives it
back if it fails. -/
def Holds (w : Contention ι K) (i : ι) (k : K) : Prop := ∃ v, w.visits i = some v ∧ k ∈ v.errand.own

/-- **Nobody comes to hold a key that has an owner.** -/
theorem Holds.of_turn (hw : w.Fits) (hk : w.table.owner? k ≠ none) (h : (w.turn who p).Holds j k) :
    w.Holds j k := by
  obtain ⟨v', hv', hmem⟩ := h
  rcases (hw.turned who p).1.visit hv' with hv | ⟨call, rfl⟩ | ⟨up, v, e, -, hv, hmoves, rfl⟩
  · exact ⟨v', hv, hmem⟩
  · cases call <;> cases hmem
  · exact ⟨v, hv, hmoves.mem_own rfl hk hmem⟩

/-- A key is asked for, and is then the transaction's, or still to be asked for as before. -/
theorem Asking.of_turn (hw : w.Fits) (h : (w.turn who p).Asking i keys pending) :
    w.Asking i keys pending ∨ pending = LockTable.distinct keys ∨
      ∃ k up, p = (i, .go up) ∧ w.Asking i keys (k :: pending) ∧
        (w.turn who p).table.owner? k = some (who i) := by
  obtain ⟨v', granted, hv', hcall, herrand⟩ := h
  rcases (hw.turned who p).1.visit hv' with hv | ⟨call, rfl⟩ | ⟨up, v, e, hp, hv, hmoves, rfl⟩
  · exact Or.inl ⟨v', granted, hv, hcall, herrand⟩
  · obtain rfl : call = .acquire keys := hcall
    cases herrand
    exact Or.inr (Or.inl rfl)
  · obtain rfl : e = .asking pending granted := herrand
    obtain ⟨call, found, errand⟩ := v
    obtain rfl : call = .acquire keys := hcall
    generalize (w.turn who p).table = t' at hmoves ⊢
    cases hmoves with
    | @take k _ rest granted htakes =>
      have hasked : w.Asking i keys (k :: pending) := ⟨_, _, hv, rfl, rfl⟩
      exact Or.inr (Or.inr ⟨k, up, hp, hasked, htakes.owned rfl⟩)
    | @pass k rest granted howned =>
      have hasked : w.Asking i keys (k :: pending) := ⟨_, _, hv, rfl, rfl⟩
      exact Or.inr (Or.inr ⟨k, up, hp, hasked, howned⟩)
    | wait => exact Or.inl ⟨_, _, hv, rfl, rfl⟩

/-- Party `i` gives back what an acquisition was granted that failed. -/
def Undoes (w : Contention ι K) (i : ι) : Prop :=
  ∃ v e rest, w.visits i = some v ∧ v.errand = .undoing e rest

omit [DecidableEq K] [DecidableEq ι] in
/-- Who asks for keys does not give back. -/
theorem Asking.not_undoes (h : w.Asking i keys pending) : ¬ w.Undoes i := by
  obtain ⟨v, granted, hv, -, herrand⟩ := h
  rintro ⟨v', e, rest, hv', hundoing⟩
  rw [hv] at hv'
  obtain rfl := Option.some.inj hv'
  rw [herrand] at hundoing
  cases hundoing

/-- Party `i` has a release under way, of some keys or of all. -/
def Releases (w : Contention ι K) (i : ι) : Prop :=
  ∃ v, w.visits i = some v ∧ ∀ keys, v.call ≠ .acquire keys

/-- Turn `p` is one of party `j`, and takes `k` away from its transaction. -/
def Loses (who : ι → Transaction) (w : Contention ι K) (p : ι × Turn K) (j : ι) (k : K) : Prop :=
  (∃ up, p = (j, .go up)) ∧ w.table.owner? k = some (who j) ∧ (w.turn who p).table.owner? k = none

/-- **A key stays its owner's in a turn**, unless that is one of a release, or gives back what was
granted. -/
theorem kept_or_lost (hw : w.Fits) (hk : w.table.owner? k = some x) (p : ι × Turn K) :
    (w.turn who p).table.owner? k = some x ∨ ∃ j, who j = x ∧ w.Loses who p j k ∧
      (w.Releases j ∨ w.Undoes j ∧ w.Holds j k) := by
  rcases (hw.turned who p).1.table with htable | ⟨j, up, v, r, hp, hv, hmoves⟩
  · exact Or.inl (htable ▸ hk)
  · refine (hmoves.kept hk).imp id ?_
    rintro ⟨rfl, hnone, hcase⟩
    refine ⟨j, rfl, ⟨⟨up, hp⟩, hk, hnone⟩, ?_⟩
    have hfits := hw.visits j v hv
    rcases hcase with ⟨n, rest, he⟩ | ⟨keys, rest, he⟩ | ⟨e, b, run, rest, he, hrun⟩
    · cases hfits with
      | giving => exact Or.inl ⟨_, hv, fun _ => nofun⟩
      | asking | undoing | givingAll => cases he
    · cases hfits with
      | givingAll => exact Or.inl ⟨_, hv, fun _ => nofun⟩
      | asking | undoing | giving => cases he
    · have hundoes : w.Undoes j := ⟨v, e, _, hv, he⟩
      have hown : k ∈ v.errand.own := by
        rw [he]
        exact List.mem_append_left _ hrun
      exact Or.inr ⟨hundoes, v, hv, hown⟩

/-! ### Turn after turn -/

/-- How things stand after `n` turns, if there were no calls in the beginning. -/
def run (who : ι → Transaction) (turns : Nat → ι × Turn K) (t : LockTable K) : Nat → Contention ι K
  | 0 => start t
  | n + 1 => (run who turns t n).turn who (turns n)

variable {turns : Nat → ι × Turn K} {a l m n : Nat}

/-- However the turns are dealt out, what is left of each call is a part of it. -/
theorem fits_run (who : ι → Transaction) (turns : Nat → ι × Turn K) (ht : 0 < t.stripes.size) (n : Nat) :
    (run who turns t n).Fits := by
  induction n with
  | zero => exact ⟨ht, nofun⟩
  | succ n ih => exact (ih.turned who (turns n)).2

/-- **A key that is pending no more was asked for**, in a turn after which it was the
transaction's. -/
theorem asked_of_asking (ht : 0 < t.stripes.size) (h : (run who turns t n).Asking i keys pending)
    (hk : k ∈ keys) (hpending : k ∉ pending) :
    ∃ a < n, (∃ up, turns a = (i, .go up)) ∧
      (∃ rest, (run who turns t a).Asking i keys (k :: rest)) ∧
      (run who turns t (a + 1)).table.owner? k = some (who i) ∧
      ∀ l, a ≤ l → l ≤ n → ∃ pending, (run who turns t l).Asking i keys pending := by
  induction n generalizing pending with
  | zero =>
    obtain ⟨v, granted, hv, -, -⟩ := h
    cases hv
  | succ n ih =>
    have hlater : ∀ {pending'}, (run who turns t n).Asking i keys pending' → k ∉ pending' →
        ∃ a < n + 1, (∃ up, turns a = (i, .go up)) ∧
          (∃ rest, (run who turns t a).Asking i keys (k :: rest)) ∧
          (run who turns t (a + 1)).table.owner? k = some (who i) ∧
          ∀ l, a ≤ l → l ≤ n + 1 → ∃ pending, (run who turns t l).Asking i keys pending := by
      intro pending' h' hpending'
      obtain ⟨a, han, hturn, hasks, howned, hasking⟩ := ih h' hpending'
      refine ⟨a, Nat.lt_succ_of_lt han, hturn, hasks, howned, fun l hal hln => ?_⟩
      rcases Nat.lt_or_eq_of_le hln with hln | rfl
      · exact hasking l hal (Nat.lt_succ_iff.1 hln)
      · exact ⟨pending, h⟩
    rcases h.of_turn (fits_run who turns ht n) with hsame | hbegun | ⟨b, up, hp, hasks, howned⟩
    · exact hlater hsame hpending
    · have hstill : k ∈ pending := hbegun ▸ LockTable.mem_distinct.2 hk
      exact absurd hstill hpending
    · by_cases hkb : k = b
      · subst hkb
        refine ⟨n, Nat.lt_succ_self n, ⟨up, hp⟩, ⟨pending, hasks⟩, howned, fun l hal hln => ?_⟩
        rcases Nat.lt_or_eq_of_le hln with hln | rfl
        · obtain rfl : l = n := Nat.le_antisymm (Nat.lt_succ_iff.1 hln) hal
          exact ⟨_, hasks⟩
        · exact ⟨pending, h⟩
      · have hnot : k ∉ b :: pending := fun hmem => by
          rcases List.mem_cons.1 hmem with rfl | hmem
          · exact hkb rfl
          · exact hpending hmem
        exact hlater hasks hnot

/-- A key is the transaction's as long as it is not lost. -/
theorem owned_or_lost (ht : 0 < t.stripes.size) (ha : (run who turns t a).table.owner? k = some x)
    (ham : a ≤ m) : (∀ l, a ≤ l → l ≤ m → (run who turns t l).table.owner? k = some x) ∨
      ∃ l j, a ≤ l ∧ l < m ∧ who j = x ∧ (run who turns t l).Loses who (turns l) j k ∧
        ((run who turns t l).Releases j ∨
          (run who turns t l).Undoes j ∧ (run who turns t l).Holds j k) ∧
        ∀ l', a ≤ l' → l' ≤ l → (run who turns t l').table.owner? k = some x := by
  induction m, ham using Nat.le_induction with
  | base =>
    refine Or.inl fun l hal hla => ?_
    rwa [Nat.le_antisymm hla hal]
  | succ m ham ih =>
    rcases ih with howned | ⟨l, j, hal, hlm, hlost⟩
    · rcases kept_or_lost (fits_run who turns ht m) (howned m ham (Nat.le_refl m)) (turns m) with
        hkept | ⟨j, hj, hloses, hhow⟩
      · refine Or.inl fun l hal hlm => ?_
        rcases Nat.lt_or_eq_of_le hlm with hlm | rfl
        · exact howned l hal (Nat.lt_succ_iff.1 hlm)
        · exact hkept
      · exact Or.inr ⟨m, j, ham, Nat.lt_succ_self m, hj, hloses, hhow, howned⟩
    · exact Or.inr ⟨l, j, hal, Nat.lt_succ_of_lt hlm, hlost⟩

/-- Who holds a key has held it as long as it has had an owner. -/
theorem holds_of_owned (ht : 0 < t.stripes.size) (hal : a ≤ l)
    (howned : ∀ l', a ≤ l' → l' < l → (run who turns t l').table.owner? k ≠ none)
    (hl : (run who turns t l).Holds j k) :
    ∀ l', a ≤ l' → l' ≤ l → (run who turns t l').Holds j k := by
  induction l, hal using Nat.le_induction with
  | base =>
    intro l' hal hla
    rwa [Nat.le_antisymm hla hal]
  | succ l hal ih =>
    have hbefore := hl.of_turn (fits_run who turns ht l) (howned l hal (Nat.lt_succ_self l))
    have hearlier : ∀ l', a ≤ l' → l' < l → (run who turns t l').table.owner? k ≠ none :=
      fun l' h h' => howned l' h (Nat.lt_succ_of_lt h')
    intro l' hal' hl'
    rcases Nat.lt_or_eq_of_le hl' with hlt | rfl
    · exact ih hearlier hbefore l' hal' (Nat.lt_succ_iff.1 hlt)
    · exact hl

/-- The acquisition of `keys` that party `i` has under way is granted in turn `n`. -/
def GrantedIn (who : ι → Transaction) (turns : Nat → ι × Turn K) (t : LockTable K) (i : ι)
    (keys : List K) (n : Nat) : Prop :=
  ∃ v up granted, (run who turns t n).visits i = some v ∧ v.call = .acquire keys ∧
    turns n = (i, .go up) ∧
    (v.errand.step up (who i) (run who turns t n).table).1 = .inr (.acquired (.ok granted))

/-- From turn `a` on, in which party `i` asks for `k`, its transaction owns the key until a release
takes it away, or another party's acquisition that has held the key since before that turn fails and
gives it back. -/
def KeptFrom (who : ι → Transaction) (turns : Nat → ι × Turn K) (t : LockTable K) (i : ι) (k : K)
    (a : Nat) : Prop :=
  ∀ m, a < m → (run who turns t m).table.owner? k = some (who i) ∨
    ∃ l j, a < l ∧ l < m ∧ who j = who i ∧ (run who turns t l).Loses who (turns l) j k ∧
      ((run who turns t l).Releases j ∨ j ≠ i ∧ (run who turns t l).Undoes j ∧
        ∀ l', a ≤ l' → l' ≤ l → (run who turns t l').Holds j k)

/-- An acquisition is granted when it has no key to ask for any more, and then it is over. -/
theorem GrantedIn.asking (ht : 0 < t.stripes.size) (h : GrantedIn who turns t i keys n) :
    (run who turns t n).Asking i keys [] ∧ (run who turns t (n + 1)).visits i = none := by
  obtain ⟨v, up, granted, hv, hcall, hp, hanswer⟩ := h
  have hfits := fits_run who turns ht n
  have hmoves := Errand.moves_step hfits.size (hfits.visits i v hv).inStripes up (who i)
  rcases hstep : v.errand.step up (who i) (run who turns t n).table with ⟨r, t'⟩
  rw [hstep] at hanswer hmoves
  obtain rfl : r = .inr (.acquired (.ok granted)) := hanswer
  constructor
  · generalize herrand : v.errand = e at hmoves
    cases hmoves with
    | grant => exact ⟨v, granted, hv, hcall, herrand⟩
  · rw [run, hp]
    simp only [turn, hv, hstep, Function.update_self]

/-- **A granted key is kept** unless it is released, or held by another party acting for the same
transaction.  Let a table be made and parties have their turns, any number of them acting for one
transaction.  If an acquisition is granted, each of its keys was asked for in an earlier turn in the
course of it, and from then on is its transaction's until a release takes it away, or until another
party gives it back whose acquisition had been granted the key before that turn and failed. -/
theorem granted_kept (who : ι → Transaction) (turns : Nat → ι × Turn K) (stripes : Nat)
    (timeout : Duration) (hash : K → UInt64)
    (hgranted : GrantedIn who turns (.create stripes timeout hash) i keys n) (hk : k ∈ keys) :
    ∃ a < n, (∃ up, turns a = (i, .go up)) ∧
      (∃ rest, (run who turns (.create stripes timeout hash) a).Asking i keys (k :: rest)) ∧
      (∀ l, a ≤ l → l ≤ n →
        ∃ pending, (run who turns (.create stripes timeout hash) l).Asking i keys pending) ∧
      KeptFrom who turns (.create stripes timeout hash) i k a := by
  have ht := LockTable.size_pos_create stripes timeout hash
  obtain ⟨hlast, hover⟩ := hgranted.asking ht
  obtain ⟨a, han, ⟨up, hp⟩, hasks, howned, hasking⟩ := asked_of_asking ht hlast hk List.not_mem_nil
  refine ⟨a, han, ⟨up, hp⟩, hasks, hasking, fun m ham => ?_⟩
  rcases owned_or_lost ht howned (Nat.succ_le_of_lt ham) with hkept | hlost
  · exact Or.inl (hkept m ham (Nat.le_refl m))
  · obtain ⟨l, j, hal, hlm, hj, hloses, hhow, hsince⟩ := hlost
    refine Or.inr ⟨l, j, hal, hlm, hj, hloses, hhow.imp id ?_⟩
    rintro ⟨hundoes, hholds⟩
    have hheld := holds_of_owned ht hal (fun l' hal' hl' => by
      rw [hsince l' hal' (Nat.le_of_lt hl')]
      exact nofun) hholds
    -- Party `i` itself does not give anything back before its call is over, and holds nothing then.
    have hji : j ≠ i := by
      rintro rfl
      rcases Nat.lt_or_ge n l with hnl | hln
      · obtain ⟨v, hv, -⟩ := hheld (n + 1) (Nat.succ_le_succ (Nat.le_of_lt han)) hnl
        rw [hover] at hv
        cases hv
      · obtain ⟨pending, hasking⟩ := hasking l (Nat.le_of_lt hal) hln
        exact hasking.not_undoes hundoes
    refine ⟨hji, hundoes, fun l' hal' hl' => ?_⟩
    rcases Nat.lt_or_eq_of_le hal' with hlt | rfl
    · exact hheld l' hlt hl'
    · -- The turn is one of party `i`, so the other one had the key before it.
      obtain ⟨v, hv, hmem⟩ := hheld (a + 1) (Nat.le_refl _) hal
      rw [run, hp, visits_turn_of_ne hji] at hv
      exact ⟨v, hv, hmem⟩

/-- Whom three parties act for: the first two of them for the same transaction. -/
def seats (i : Fin 3) : Transaction := if i = 2 then ⟨2, ⟨"b"⟩⟩ else ⟨1, ⟨"a"⟩⟩

/-- Party 2 locks key 2.  Party 0 asks for keys 1 and 2, is granted key 1 and waits for the other.
Then party 1 asks for key 1 and has it.  The time of party 0 is up, and it gives back key 1. -/
def script (n : Nat) : Fin 3 × Turn Nat :=
  [(2, .ask (.acquire [2])), (2, .go false), (2, .go false), (0, .ask (.acquire [1, 2])),
    (0, .go false), (0, .go false), (1, .ask (.acquire [1])), (1, .go false), (1, .go false),
    (0, .go true), (0, .go false)].getD n (0, .go false)

/-- The key that party 1 was granted is kept as long as party 0 does not fail. -/
theorem granted_kept_overlapping :
    let t := LockTable.create 2 (.ofMillis 100) fun n : Nat => .ofNat n
    GrantedIn seats script t 1 [1] 8 ∧ 1 ∈ [1] ∧ ∃ a < 8, (∃ up, script a = (1, .go up)) ∧
      (∃ rest, (run seats script t a).Asking 1 [1] (1 :: rest)) ∧
      (∀ l, a ≤ l → l ≤ 8 → ∃ pending, (run seats script t l).Asking 1 [1] pending) ∧
      KeptFrom seats script t 1 1 a := by
  have hgranted : GrantedIn seats script
      (.create 2 (.ofMillis 100) fun n : Nat => .ofNat n) 1 [1] 8 :=
    ⟨_, false, [], rfl, rfl, rfl, rfl⟩
  have hk : 1 ∈ [1] := by decide
  exact ⟨hgranted, hk, granted_kept seats script 2 (.ofMillis 100) _ hgranted hk⟩

/-- **A granted key is lost though nobody releases anything**, if another party acting for the same
transaction was granted it before and fails. -/
theorem granted_lost :
    let t := LockTable.create 2 (.ofMillis 100) fun n : Nat => .ofNat n
    GrantedIn seats script t 1 [1] 8 ∧
      ¬ ∀ m, 8 < m → (∀ l < m, ∀ i call, script l = (i, .ask call) → ∃ keys, call = .acquire keys) →
        ∀ k ∈ [1], (run seats script t m).table.owner? k = some (seats 1) := by
  refine ⟨⟨_, false, [], rfl, rfl, rfl, rfl⟩, fun h => ?_⟩
  have hlost : (run seats script
      (.create 2 (.ofMillis 100) fun n : Nat => .ofNat n) 11).table.owner? 1 = none := by
    decide +kernel
  have hacquires : ∀ l < 11, ∀ i call, script l = (i, .ask call) → ∃ keys, call = .acquire keys := by
    intro l hl i call hturn
    interval_cases l <;> cases hturn <;> exact ⟨_, rfl⟩
  have hkept := h 11 (by decide) hacquires 1 (by decide)
  rw [hlost] at hkept
  cases hkept

end Contention
end ClusterCache
