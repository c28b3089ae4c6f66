/-
# Calls that contend for keys

Any number of parties make calls on one lock table, each for a transaction and one call at a time.
Whose turn it is, is left open: a contention goes on by turns, in any order, and in each a party makes
a call or does the next indivisible step of the one it has under way (`Contention.turn`).

What has happened is kept as a list of steps, the last one first.  Three things are true of it if no
two parties act for the same transaction (`Contention.locks_kept`).  No step touches a key of another
transaction.  The keys of an acquisition that was granted are its transaction's until that gives them
back.  And an acquisition that failed leaves its transaction with the keys that it found it with.

The last two need an account of calls that are not done (`Visit.Sound`).  An acquisition under way owns
no more than it found its transaction with and what it was granted, and what it was granted it did not
find it with; so giving that back takes nothing away that was promised before.
-/

import Mathlib.Logic.Function.Basic
import ClusterCache.Proofs.Lock.Moves

namespace ClusterCache

/-- A call under way. -/
structure Visit (K : Type) where
  call : LockCall K
  /-- The table when the call was made. -/
  found : LockTable K
  errand : Errand K

/-- A step that was done. -/
structure LockStep (K : Type) where
  requester : Transaction
  call : LockCall K
  /-- The table when the call was made. -/
  found : LockTable K
  /-- The table before the step. -/
  before : LockTable K
  /-- The table after the step. -/
  after : LockTable K
  /-- The answer, if the step was the last one of its call. -/
  reply : Option (LockReply K)

/-- What a party does when it is its turn. -/
inductive Turn (K : Type) where
  /-- It makes a call. -/
  | ask (call : LockCall K)
  /-- It goes on with its call; `up` says whether its time to wait is up. -/
  | go (up : Bool)

/-- A lock table, and how far each party has come with its call. -/
structure Contention (ι K : Type) where
  table : LockTable K
  visits : ι → Option (Visit K)
  /-- The steps done so far, the last one first. -/
  past : List (LockStep K)

variable {ι K : Type} [DecidableEq ι] [DecidableEq K] {x y : Transaction} {k : K}
  {t t' : LockTable K}

namespace Contention

/-- Nobody has made a call yet. -/
def start (t : LockTable K) : Contention ι K := ⟨t, fun _ => none, []⟩

/-- A party has its turn; `who` tells whom it acts for.  It does nothing if it is to make a call while
one is under way, or to go on with none. -/
def turn (who : ι → Transaction) (w : Contention ι K) : ι × Turn K → Contention ι K
  | (i, .ask call) =>
    match w.visits i with
    | none =>
      { w with visits := Function.update w.visits i (some ⟨call, w.table, w.table.begin call⟩) }
    | some _ => w
  | (i, .go up) =>
    match w.visits i with
    | none => w
    | some v =>
      match v.errand.step up (who i) w.table with
      | (.inl e, t) => ⟨t, Function.update w.visits i (some { v with errand := e }),
          ⟨who i, v.call, v.found, w.table, t, none⟩ :: w.past⟩
      | (.inr r, t) => ⟨t, Function.update w.visits i none,
          ⟨who i, v.call, v.found, w.table, t, some r⟩ :: w.past⟩

end Contention

/-! ### Calls under way -/

/-- A transaction owns all keys that it owned in the beginning, and of others only some of those in a
list, none of which it owned in the beginning. -/
structure LockTable.Extends (x : Transaction) (found : LockTable K) (new : List K)
    (t : LockTable K) : Prop where
  kept : ∀ k, found.owner? k = some x → t.owner? k = some x
  cases : ∀ k, t.owner? k = some x → found.owner? k = some x ∨ k ∈ new
  fresh : ∀ k ∈ new, found.owner? k ≠ some x

namespace LockTable.Extends

variable {found : LockTable K} {new : List K}

/-- A call that has done nothing found what there is. -/
theorem refl (x : Transaction) (t : LockTable K) : Extends x t [] t :=
  ⟨fun _ h => h, fun _ h => Or.inl h, nofun⟩

/-- With nothing on the list the transaction owns what it owned in the beginning. -/
theorem owned_iff (h : Extends x found [] t) (k : K) :
    t.owner? k = some x ↔ found.owner? k = some x :=
  ⟨fun hk => (h.cases k hk).resolve_right List.not_mem_nil, h.kept k⟩

/-- It does not matter for the account how the table came to the same owners. -/
theorem congr {new' : List K} (h : Extends x found new t)
    (howned : ∀ k, t'.owner? k = some x ↔ t.owner? k = some x) (hnew : ∀ k, k ∈ new' ↔ k ∈ new) :
    Extends x found new' t' where
  kept k hk := (howned k).2 (h.kept k hk)
  cases k hk := (h.cases k ((howned k).1 hk)).imp id (hnew k).2
  fresh k hk := h.fresh k ((hnew k).1 hk)

/-- A key without an owner that is taken goes on the list. -/
theorem take (h : Extends x found new t) (ht : Takes x (· = k) t t') :
    Extends x found (new ++ [k]) t' where
  kept a ha := ht.mono (h.kept a ha)
  cases a ha := by
    rw [List.mem_append, List.mem_singleton]
    rcases (ht.owner_iff a x).1 ha with howned | ⟨-, rfl⟩
    · exact (h.cases a howned).imp id Or.inl
    · exact Or.inr (Or.inr rfl)
  fresh a ha hfound := by
    rcases List.mem_append.1 ha with ha | ha
    · exact h.fresh a ha hfound
    · obtain rfl := List.mem_singleton.1 ha
      have hnone := ht.fresh a rfl
      rw [h.kept a hfound] at hnone
      cases hnone

/-- Keys that are given back go off the list. -/
theorem free {run : List K} (h : Extends x found (run ++ new) t)
    (ht : Frees x (· ∈ run) t t') : Extends x found new t' where
  kept a ha := ht.owned_iff.2
    ⟨h.kept a ha, fun hrun => h.fresh a (List.mem_append_left _ hrun) ha⟩
  cases a ha := by
    obtain ⟨howned, hrun⟩ := ht.owned_iff.1 ha
    exact (h.cases a howned).imp id fun hnew => (List.mem_append.1 hnew).resolve_left hrun
  fresh a ha := h.fresh a (List.mem_append_right _ ha)

end LockTable.Extends

/-- What is true of a call of `x` under way on the table `t`. -/
inductive Visit.Sound (x : Transaction) (t : LockTable K) : Visit K → Prop
  /-- Every key is the transaction's or still to be asked for. -/
  | asking {keys pending granted : List K} {found : LockTable K} :
      LockTable.Extends x found granted t → (∀ k ∈ keys, k ∈ pending ∨ t.owner? k = some x) →
      Sound x t ⟨.acquire keys, found, .asking pending granted⟩
  /-- All that the transaction did not own in the beginning is still to be given back. -/
  | undoing {keys : List K} {found : LockTable K} {e : LockError K} {rest : List (Nat × List K)} :
      LockTable.Extends x found (rest.flatMap Prod.snd) t → t.InStripes rest →
      Sound x t ⟨.acquire keys, found, .undoing e rest⟩
  | giving {keys : List K} {found : LockTable K} {n : Nat} {rest : List (Nat × List K)} :
      t.InStripes rest → Sound x t ⟨.release keys, found, .giving n rest⟩
  | givingAll {keys : List K} {found : LockTable K} {rest : List Nat} :
      Sound x t ⟨.releaseAll, found, .givingAll keys rest⟩

/-- What is true when a call of `x` is answered. -/
structure LockReply.Honest (x : Transaction) (call : LockCall K) (found t : LockTable K)
    (r : LockReply K) : Prop where
  granted : ∀ keys granted, call = .acquire keys → r = .acquired (.ok granted) →
    ∀ k ∈ keys, t.owner? k = some x
  refused : ∀ e, r = .acquired (.error e) →
    ∀ k, t.owner? k = some x ↔ found.owner? k = some x

/-- Nothing is promised by answers to other calls than acquisitions. -/
theorem LockReply.Honest.of_ne {call : LockCall K} {found : LockTable K} {r : LockReply K}
    (h : ∀ answer, r ≠ .acquired answer) : r.Honest x call found t :=
  ⟨fun _ _ _ hr => absurd hr (h _), fun _ hr => absurd hr (h _)⟩

/-- What a step of a call of `x` does to the table. -/
structure LockTable.Stepped (x : Transaction) (call : LockCall K) (found t t' : LockTable K) :
    Prop where
  shape : t.SameShape t'
  /-- Others own what they owned. -/
  spares : ∀ y, y ≠ x → ∀ k, t'.owner? k = some y ↔ t.owner? k = some y
  /-- Of the keys that were the transaction's all the time only a release takes one away. -/
  keeps : ∀ k, found.owner? k = some x → t.owner? k = some x →
    t'.owner? k = some x ∨ (∀ keys, call ≠ .acquire keys) ∧ t'.owner? k = none

namespace LockTable.Stepped

variable {call : LockCall K} {found : LockTable K} {P : K → Prop}

/-- A step that does nothing is one that a call may do. -/
theorem refl (x : Transaction) (call : LockCall K) (found t : LockTable K) :
    Stepped x call found t t := ⟨.refl t, fun _ _ _ => Iff.rfl, fun _ _ h => Or.inl h⟩

/-- Keys without an owner may be taken. -/
theorem of_takes (hs : t.SameShape t') (h : Takes x P t t') : Stepped x call found t t' where
  shape := hs
  spares y hy k := (h.owner_iff k y).trans
    ⟨fun hk => hk.resolve_right fun hx => hy hx.1, Or.inl⟩
  keeps _ _ hk := Or.inl (h.mono hk)

/-- Only a release may free a key that was the transaction's in the beginning. -/
theorem of_frees (hs : t.SameShape t') (h : Frees x P t t')
    (hP : ∀ k, P k → found.owner? k = some x → ∀ keys, call ≠ .acquire keys) :
    Stepped x call found t t' where
  shape := hs
  spares _ hy _ := h.other_iff hy
  keeps k hfound hk := by
    by_cases hPk : P k
    · exact Or.inr ⟨hP k hPk hfound, h.eq_none hk hPk⟩
    · exact Or.inl (h.owned_iff.2 ⟨hk, hPk⟩)

end LockTable.Stepped

namespace Visit

/-- What a step of a call `v` of `x` on the table `t` may lead to. -/
inductive Allows (x : Transaction) (t : LockTable K) (v : Visit K) :
    (Errand K ⊕ LockReply K) × LockTable K → Prop
  /-- The account of the call is in order. -/
  | goOn {e : Errand K} {t' : LockTable K} : LockTable.Stepped x v.call v.found t t' →
      Sound x t' { v with errand := e } → Allows x t v (.inl e, t')
  /-- The answer is honest. -/
  | answer {r : LockReply K} {t' : LockTable K} : LockTable.Stepped x v.call v.found t t' →
      r.Honest x v.call v.found t' → Allows x t v (.inr r, t')

variable {v : Visit K} {keys pending granted : List K} {found : LockTable K}

/-- A call begins with its account in order. -/
theorem sound_begin (x : Transaction) (t : LockTable K) (call : LockCall K) :
    Sound x t ⟨call, t, t.begin call⟩ := by
  cases call with
  | acquire keys => exact .asking (.refl x t) fun k hk => Or.inl (LockTable.mem_distinct.2 hk)
  | release keys => exact .giving (t.inStripes_runs _)
  | releaseAll => exact .givingAll

/-- What others do leaves the account in order. -/
theorem Sound.of_spared (h : v.Sound x t) (hs : t.SameShape t')
    (howned : ∀ k, t'.owner? k = some x ↔ t.owner? k = some x) : v.Sound x t' := by
  cases h with
  | asking hextends hkeys =>
    have hextends' := hextends.congr howned fun _ => Iff.rfl
    exact .asking hextends' fun k hk => (hkeys k hk).imp id (howned k).2
  | undoing hextends hrest =>
    have hextends' := hextends.congr howned fun _ => Iff.rfl
    exact .undoing hextends' (hrest.of_sameShape hs)
  | giving hrest => exact .giving (hrest.of_sameShape hs)
  | givingAll => exact .givingAll

/-- An acquisition that fails has all that it was granted to give back. -/
theorem sound_fail {e : LockError K} (h : LockTable.Extends x found granted t) :
    Sound x t ⟨.acquire keys, found, t.fail e granted⟩ := by
  refine .undoing (h.congr (fun _ => Iff.rfl) fun k => ?_) (t.inStripes_runs _)
  rw [LockTable.flatMap_runs, LockTable.mem_distinct]

/-- A key that has become the transaction's need not be asked for any more. -/
theorem asked_or_owned {a : K} (hkeys : ∀ k ∈ keys, k ∈ a :: pending ∨ t.owner? k = some x)
    (hmono : ∀ k, t.owner? k = some x → t'.owner? k = some x) (ha : t'.owner? a = some x) :
    ∀ k ∈ keys, k ∈ pending ∨ t'.owner? k = some x := by
  intro k hk
  rcases hkeys k hk with hpending | howned
  · rcases List.mem_cons.1 hpending with rfl | hpending
    · exact Or.inr ha
    · exact Or.inl hpending
  · exact Or.inr (hmono k howned)

/-- What a call has still to give back is in the stripes where it is looked for. -/
theorem Sound.inStripes (h : v.Sound x t) : v.errand.InStripes t := by
  cases h with
  | asking | givingAll => trivial
  | undoing _ hrest => exact hrest
  | giving hrest => exact hrest

/-- **A step of a call** leaves its account in order, or its answer is honest. -/
theorem Sound.step (h : v.Sound x t) (ht : 0 < t.stripes.size) (up : Bool) :
    v.Allows x t (v.errand.step up x t) := by
  have hmoves := Errand.moves_step ht h.inStripes up x
  have hshape := Errand.sameShape_step up x t v.errand
  generalize v.errand.step up x t = q at hmoves hshape ⊢
  obtain ⟨r, t'⟩ := q
  simp only at hmoves hshape
  cases h with
  | @asking keys pending granted found hextends hkeys =>
    cases hmoves with
    | grant =>
      refine .answer (.refl ..) ⟨?_, ?_⟩
      · intro keys' _ hcall _ k hk
        obtain rfl : keys = keys' := by injection hcall
        exact (hkeys k hk).resolve_left List.not_mem_nil
      · rintro e ⟨⟩
    | take rest granted htakes =>
      exact .goOn (.of_takes hshape htakes) (.asking (hextends.take htakes)
        (asked_or_owned hkeys (fun _ => htakes.mono) (htakes.owned rfl)))
    | pass rest granted howned =>
      exact .goOn (.refl ..) (.asking hextends (asked_or_owned hkeys (fun _ => id) howned))
    | wait => exact .goOn (.refl ..) (.asking hextends hkeys)
    | fail => exact .goOn (.refl ..) (sound_fail hextends)
  | undoing hextends hrest =>
    cases hmoves with
    | refuse =>
      refine .answer (.refl ..) ⟨?_, fun _ _ => hextends.owned_iff⟩
      rintro keys' granted - ⟨⟩
    | undo e i run rest hfrees =>
      refine .goOn (.of_frees hshape hfrees ?_) (.undoing (hextends.free hfrees)
        ((LockTable.inStripes_cons_iff.1 hrest).2.of_sameShape hshape))
      intro k hk hfound
      exact absurd hfound (hextends.fresh k (List.mem_append_left _ hk))
  | giving hrest =>
    cases hmoves with
    | released =>
      refine .answer (.refl ..) (.of_ne ?_)
      rintro answer ⟨⟩
    | give n m i run rest hfrees =>
      refine .goOn (.of_frees hshape hfrees ?_)
        (.giving ((LockTable.inStripes_cons_iff.1 hrest).2.of_sameShape hshape))
      rintro k - - keys' ⟨⟩
  | givingAll =>
    cases hmoves with
    | releasedAll =>
      refine .answer (.refl ..) (.of_ne ?_)
      rintro answer ⟨⟩
    | giveAll keys keys' i rest hfrees =>
      refine .goOn (.of_frees hshape hfrees ?_) .givingAll
      rintro k - - keys' ⟨⟩

end Visit

/-! ### What has happened -/

namespace LockStep

/-- The step answered an acquisition of `x` that was granted, and `k` is one of its keys. -/
def Grants (m : LockStep K) (x : Transaction) (k : K) : Prop :=
  m.requester = x ∧ ∃ keys granted, m.call = .acquire keys ∧
    m.reply = some (.acquired (.ok granted)) ∧ k ∈ keys

/-- The step is one of a release of `x`, and takes `k` away from it. -/
def Frees (m : LockStep K) (x : Transaction) (k : K) : Prop :=
  m.requester = x ∧ (∀ keys, m.call ≠ .acquire keys) ∧
    m.before.owner? k = some x ∧ m.after.owner? k = none

/-- A key was granted, and no release has taken it away since. -/
def Standing (x : Transaction) (k : K) : List (LockStep K) → Prop
  | [] => False
  | m :: past => m.Grants x k ∨ Standing x k past ∧ ¬ m.Frees x k

/-- A key that was granted stands until a release takes it away. -/
theorem standing_or_freed {m : LockStep K} (h : m.Grants x k) (later earlier : List (LockStep K)) :
    Standing x k (later ++ m :: earlier) ∨ ∃ m' ∈ later, m'.Frees x k := by
  induction later with
  | nil => exact Or.inl (Or.inl h)
  | cons l later ih =>
    by_cases hl : l.Frees x k
    · exact Or.inr ⟨l, List.mem_cons_self .., hl⟩
    · rcases ih with hstanding | ⟨m', hm', hfrees⟩
      · exact Or.inl (Or.inr ⟨hstanding, hl⟩)
      · exact Or.inr ⟨m', List.mem_cons_of_mem _ hm', hfrees⟩

end LockStep

namespace Contention

open LockStep (Standing)

/-- The table after a turn is the one before it, or what a step of some call makes of it. -/
theorem table_turn (who : ι → Transaction) (w : Contention ι K) (p : ι × Turn K)
    {Q : LockTable K → Prop} (hw : Q w.table)
    (hstep : ∀ up x (e : Errand K), Q (e.step up x w.table).2) : Q (w.turn who p).table := by
  obtain ⟨i, call | up⟩ := p
  · simp only [turn]
    split <;> exact hw
  · simp only [turn]
    split
    · exact hw
    · rename_i v _
      have hnext := hstep up (who i) v.errand
      rcases hr : v.errand.step up (who i) w.table with ⟨e | r, t⟩ <;> rw [hr] at hnext <;>
        exact hnext

/-- A turn leaves everything as it was that is chosen when a table is made. -/
theorem sameShape_turn (who : ι → Transaction) (w : Contention ι K) (p : ι × Turn K) :
    w.table.SameShape (w.turn who p).table :=
  w.table_turn who p (.refl _) fun up x e => e.sameShape_step up x w.table

/-- However the turns are dealt out, the table keeps its shape. -/
theorem sameShape_turns (who : ι → Transaction) (w : Contention ι K) (turns : List (ι × Turn K)) :
    w.table.SameShape (turns.foldl (turn who) w).table := by
  induction turns generalizing w with
  | nil => exact .refl _
  | cons p rest ih => exact (w.sameShape_turn who p).trans (ih _)

variable {who : ι → Transaction} {w : Contention ι K}

/-- What is under way after one party's call changed: its new call, and those of the others. -/
theorem update_eq_some_iff {α : Type} {f : ι → Option α} {i j : ι} {a : Option α} {b : α} :
    Function.update f i a j = some b ↔ j = i ∧ a = some b ∨ j ≠ i ∧ f j = some b := by
  by_cases h : j = i <;> simp [h]

/-- The accounts of all calls under way are in order, and all that was promised is kept. -/
structure Sound (who : ι → Transaction) (w : Contention ι K) : Prop where
  size : 0 < w.table.stripes.size
  visits : ∀ i v, w.visits i = some v → v.Sound (who i) w.table
  /-- Keys that stand were the transaction's when it made the call that it has under way. -/
  standing : ∀ x k, Standing x k w.past → w.table.owner? k = some x ∧
    ∀ i v, who i = x → w.visits i = some v → v.found.owner? k = some x
  spares : ∀ m ∈ w.past, ∀ y, y ≠ m.requester → ∀ k,
    m.after.owner? k = some y ↔ m.before.owner? k = some y
  honest : ∀ m ∈ w.past, ∀ r, m.reply = some r → r.Honest m.requester m.call m.found m.after

omit [DecidableEq ι] in
/-- In the beginning no call is under way and nothing is promised. -/
theorem sound_start (ht : 0 < t.stripes.size) : Sound who (start t : Contention ι K) where
  size := ht
  visits i v h := by cases h
  standing x k h := h.elim
  spares m hm := absurd hm List.not_mem_nil
  honest m hm := absurd hm List.not_mem_nil

/-- Who makes a call finds its transaction with all that stands. -/
theorem Sound.ask (h : w.Sound who) {i : ι} (call : LockCall K) :
    Sound who { w with
      visits := Function.update w.visits i (some ⟨call, w.table, w.table.begin call⟩) } where
  size := h.size
  visits j v hj := by
    rcases update_eq_some_iff.1 hj with ⟨-, heq⟩ | ⟨-, hj⟩
    · cases heq
      exact Visit.sound_begin _ _ _
    · exact h.visits j v hj
  standing x k hstanding := by
    obtain ⟨howned, hfound⟩ := h.standing x k hstanding
    refine ⟨howned, fun j v hj hv => ?_⟩
    rcases update_eq_some_iff.1 hv with ⟨-, heq⟩ | ⟨-, hv⟩
    · cases heq
      exact howned
    · exact hfound j v hj hv
  spares := h.spares
  honest := h.honest

/-- What is promised is kept when the call `v` of party `i` does a step to the table `t'` that its
account allows, and is then in the state `v?`. -/
theorem Sound.move (hwho : Function.Injective who) (h : w.Sound who) {i : ι} {v : Visit K}
    {v? : Option (Visit K)} {r? : Option (LockReply K)} (hv : w.visits i = some v)
    (hstep : LockTable.Stepped (who i) v.call v.found w.table t')
    (hv? : ∀ v', v? = some v' → v'.Sound (who i) t' ∧ v'.found = v.found ∧ r? = none)
    (hr? : ∀ r, r? = some r → r.Honest (who i) v.call v.found t' ∧ v? = none) :
    Sound who ⟨t', Function.update w.visits i v?,
      ⟨who i, v.call, v.found, w.table, t', r?⟩ :: w.past⟩ where
  size := hstep.shape.size.symm ▸ h.size
  visits j v' hj := by
    rcases update_eq_some_iff.1 hj with ⟨rfl, heq⟩ | ⟨hij, hj⟩
    · exact (hv? v' heq).1
    · have hother : who j ≠ who i := fun hx => hij (hwho hx)
      exact (h.visits j v' hj).of_spared hstep.shape fun k => hstep.spares _ hother k
  standing x k hstanding := by
    rcases hstanding with hgrants | ⟨hstanding, hnot⟩
    · -- The party whose call was answered has none under way now, and nobody else acts for `x`.
      obtain ⟨rfl, keys, granted, hcall, hreply, hk⟩ := hgrants
      obtain ⟨hhonest, rfl⟩ := hr? _ hreply
      have howned : t'.owner? k = some (who i) := hhonest.granted keys granted hcall rfl k hk
      refine ⟨howned, fun j v' hj hv' => ?_⟩
      rcases update_eq_some_iff.1 hv' with ⟨-, heq⟩ | ⟨hij, -⟩
      · cases heq
      · exact absurd (hwho hj) hij
    · obtain ⟨howned, hfound⟩ := h.standing x k hstanding
      have hstays : t'.owner? k = some x := by
        by_cases hx : x = who i
        · subst hx
          have hmine : v.found.owner? k = some (who i) := hfound i v rfl hv
          refine (hstep.keeps k hmine howned).resolve_right fun hfreed => ?_
          exact hnot ⟨rfl, hfreed.1, howned, hfreed.2⟩
        · exact (hstep.spares x hx k).2 howned
      refine ⟨hstays, fun j v' hj hv' => ?_⟩
      rcases update_eq_some_iff.1 hv' with ⟨rfl, heq⟩ | ⟨-, hv'⟩
      · rw [(hv? v' heq).2.1]
        exact hfound j v hj hv
      · exact hfound j v' hj hv'
  spares m hm := by
    rcases List.mem_cons.1 hm with rfl | hm
    · exact fun y hy k => hstep.spares y hy k
    · exact h.spares m hm
  honest m hm r hr := by
    rcases List.mem_cons.1 hm with rfl | hm
    · exact (hr? r hr).1
    · exact h.honest m hm r hr

/-- **Every turn keeps what is promised.** -/
theorem Sound.turn (hwho : Function.Injective who) (h : w.Sound who) (p : ι × Turn K) :
    (w.turn who p).Sound who := by
  obtain ⟨i, call | up⟩ := p
  · simp only [Contention.turn]
    split
    · exact h.ask call
    · exact h
  · simp only [Contention.turn]
    split
    · exact h
    · rename_i v hv
      have hallows := (h.visits i v hv).step h.size up
      generalize v.errand.step up (who i) w.table = q at hallows
      cases hallows with
      | goOn hstep hsound =>
        refine h.move hwho hv hstep ?_ nofun
        rintro v' ⟨⟩
        exact ⟨hsound, rfl, rfl⟩
      | answer hstep hhonest =>
        refine h.move hwho hv hstep nofun ?_
        rintro r' ⟨⟩
        exact ⟨hhonest, rfl⟩

/-- **Locks are kept, whoever's turn it is.**  If no two parties act for the same transaction, then
after any turns: no step has changed the key of a transaction that it was not a step of; every key of
an acquisition that was granted is still its transaction's, or a later step of a release of that
transaction has freed it; and when an acquisition failed, its transaction owned those of its keys that
it owned when it made the call. -/
theorem locks_kept (hwho : Function.Injective who) (ht : 0 < t.stripes.size)
    (turns : List (ι × Turn K)) :
    let w := turns.foldl (Contention.turn who) (start t)
    (∀ m ∈ w.past, ∀ y, y ≠ m.requester → ∀ k,
      m.after.owner? k = some y ↔ m.before.owner? k = some y) ∧
    (∀ later m earlier, w.past = later ++ m :: earlier → ∀ x k, m.Grants x k →
      w.table.owner? k = some x ∨ ∃ m' ∈ later, m'.Frees x k) ∧
    ∀ m ∈ w.past, ∀ keys e, m.call = .acquire keys → m.reply = some (.acquired (.error e)) →
      ∀ k ∈ keys, m.after.owner? k = some m.requester ↔ m.found.owner? k = some m.requester := by
  have hrun : ∀ (w : Contention ι K), w.Sound who →
      (turns.foldl (Contention.turn who) w).Sound who := by
    induction turns with
    | nil => exact fun w h => h
    | cons p rest ih => exact fun w h => ih _ (h.turn hwho p)
  have hsound := hrun _ (sound_start ht)
  refine ⟨hsound.spares, ?_, ?_⟩
  · intro later m earlier hpast x k hgrants
    rcases LockStep.standing_or_freed hgrants later earlier with hstanding | hfreed
    · rw [← hpast] at hstanding
      exact Or.inl (hsound.standing x k hstanding).1
    · exact Or.inr hfreed
  · intro m hm keys e _ hreply k _
    exact (hsound.honest m hm _ hreply).refused e rfl k

/-- Of two transactions that both want key 2 the first one gets it; the second one gives back key 3,
which it was granted before it came to key 2. -/
theorem locks_kept_contended :
    let who : Bool → Transaction := fun b => ⟨if b then 1 else 2, ⟨"a"⟩⟩
    let turns : List (Bool × Turn Nat) := [
      (true, .ask (.acquire [1, 2])), (false, .ask (.acquire [3, 2])), (true, .go false),
      (false, .go false), (true, .go false), (false, .go false), (true, .go false),
      (true, .ask (.release [1])), (false, .go false), (true, .go false), (false, .go false)]
    let w := turns.foldl (Contention.turn who) (start (.create 2 .zero fun n => .ofNat n))
    Function.Injective who ∧ w.past.length = 8 ∧ w.table.owner? 1 = none ∧
    w.table.owner? 2 = some (who true) ∧ w.table.owner? 3 = none ∧
    (∀ m ∈ w.past, ∀ y, y ≠ m.requester → ∀ k,
      m.after.owner? k = some y ↔ m.before.owner? k = some y) ∧
    (∀ later m earlier, w.past = later ++ m :: earlier → ∀ x k, m.Grants x k →
      w.table.owner? k = some x ∨ ∃ m' ∈ later, m'.Frees x k) ∧
    ∀ m ∈ w.past, ∀ keys e, m.call = .acquire keys → m.reply = some (.acquired (.error e)) →
      ∀ k ∈ keys, m.after.owner? k = some m.requester ↔ m.found.owner? k = some m.requester := by
  have hwho : Function.Injective fun b : Bool => (⟨if b then 1 else 2, ⟨"a"⟩⟩ : Transaction) := by
    intro a b h
    cases a <;> cases b <;> first | rfl | exact absurd h (by decide)
  refine ⟨hwho, by decide +kernel, by decide +kernel, by decide +kernel, by decide +kernel, ?_⟩
  exact locks_kept hwho (LockTable.size_pos_create 2 .zero _) _

end Contention
end ClusterCache
