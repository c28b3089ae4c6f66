/-
# What becomes of the owners

All that others can see of a lock table is who owns which key, so each operation is described by the
owners before and after it.  Asking for a key makes its requester the owner of a key without one and
changes nothing else (`attempt_cases`).  Giving back keys frees those of them that the transaction
owns, and no others: this is `Frees`, for a run of keys (`frees_releaseRun`), for a stripe
(`frees_releaseStripe`) and for a whole release (`frees_release`).

From these follows what an acquisition does that nobody interrupts: it asks for keys until one is
another's (`advance_cases`), so that it owns all its keys if it succeeds, and gives back what it was
granted if it fails (`acquire_cases`).
-/

import ClusterCache.Lock.Table

namespace ClusterCache
namespace LockTable

variable {K : Type} {t t' t'' : LockTable K} {x y : Transaction} {k : K} {i : Nat}
  {P Q : K → Prop}

/-! ### What stays -/

/-- Everything that is chosen when a table is made is as it was. -/
structure SameShape (t t' : LockTable K) : Prop where
  size : t'.stripes.size = t.stripes.size
  timeout : t'.timeout = t.timeout
  hash : t'.hash = t.hash

namespace SameShape

/-- A table has its own shape. -/
theorem refl (t : LockTable K) : t.SameShape t := ⟨rfl, rfl, rfl⟩

/-- The shape stays over two steps. -/
theorem trans (h : t.SameShape t') (h' : t'.SameShape t'') : t.SameShape t'' :=
  ⟨h'.size.trans h.size, h'.timeout.trans h.timeout, h'.hash.trans h.hash⟩

/-- In tables of one shape a key is of the same stripe. -/
theorem stripeOf (h : t.SameShape t') : t'.stripeOf = t.stripeOf := by
  funext k
  rw [LockTable.stripeOf, LockTable.stripeOf, h.size, h.hash]

end SameShape

/-- The table with other owners in stripe `i`. -/
def withStripe (t : LockTable K) (i : Nat) (owners : Assoc K Transaction) : LockTable K :=
  { t with stripes := t.stripes.setIfInBounds i owners }

/-- Other owners in a stripe make no other shape. -/
theorem sameShape_withStripe (t : LockTable K) (i : Nat) (owners : Assoc K Transaction) :
    t.SameShape (t.withStripe i owners) := ⟨Array.size_setIfInBounds, rfl, rfl⟩

/-- Giving back all of one stripe leaves the shape. -/
theorem sameShape_releaseStripe (t : LockTable K) (x : Transaction) (i : Nat) :
    t.SameShape (t.releaseStripe x i).2 := by
  unfold releaseStripe
  split
  · exact .refl t
  · exact t.sameShape_withStripe _ _

/-- A new table has a stripe, even if none was asked for. -/
theorem size_pos_create (stripes : Nat) (timeout : Duration) (hash : K → UInt64) :
    0 < (create stripes timeout hash).stripes.size := by
  rw [create, Array.size_replicate]
  omega

/-- There is a stripe for every key. -/
theorem exists_stripe (ht : 0 < t.stripes.size) (k : K) :
    ∃ owners, t.stripes[t.stripeOf k]? = some owners :=
  ⟨_, Array.getElem?_eq_getElem (Nat.mod_lt _ ht)⟩

/-! ### Runs -/

/-- Each run holds keys of the stripe that it names. -/
def InStripes (t : LockTable K) (rest : List (Nat × List K)) : Prop :=
  ∀ p ∈ rest, ∀ k ∈ p.2, t.stripeOf k = p.1

/-- Runs are of the stripes that they name if the first one is and the others are. -/
theorem inStripes_cons_iff {run : List K} {rest : List (Nat × List K)} :
    t.InStripes ((i, run) :: rest) ↔ (∀ k ∈ run, t.stripeOf k = i) ∧ t.InStripes rest := by
  simp [InStripes]

/-- In a table of the same shape the runs are of the same stripes. -/
theorem InStripes.of_sameShape {rest : List (Nat × List K)} (h : t.InStripes rest)
    (hs : t.SameShape t') : t'.InStripes rest := fun p hp k hk => by
  rw [hs.stripeOf]
  exact h p hp k hk

/-- The runs of keys are the keys, in order. -/
theorem flatMap_runs (t : LockTable K) (keys : List K) : (t.runs keys).flatMap Prod.snd = keys := by
  induction keys with
  | nil => rfl
  | cons k rest ih =>
    unfold runs
    split <;> rename_i h <;> rw [h] at ih
    · rw [← ih]
      rfl
    · split <;> exact congrArg (k :: ·) ih

/-- Keys are put into runs by their stripes. -/
theorem inStripes_runs (t : LockTable K) (keys : List K) : t.InStripes (t.runs keys) := by
  induction keys with
  | nil => exact fun p hp => absurd hp List.not_mem_nil
  | cons k rest ih =>
    unfold runs
    split
    · simp [InStripes]
    · rename_i j run more h
      rw [h, inStripes_cons_iff] at ih
      split
      · rename_i hj
        rw [inStripes_cons_iff, List.forall_mem_cons]
        exact ⟨⟨hj, ih.1⟩, ih.2⟩
      · rw [inStripes_cons_iff, inStripes_cons_iff, List.forall_mem_singleton]
        exact ⟨rfl, ih⟩

/-! ### Owners -/

section

variable [DecidableEq K]

/-- The owner of a key is looked up in its stripe. -/
theorem owner?_of_stripe {owners : Assoc K Transaction}
    (h : t.stripes[t.stripeOf k]? = some owners) : t.owner? k = owners.get? k := by
  rw [owner?, h]

/-- Other owners in a stripe are the owners of the keys of that stripe. -/
theorem owner?_withStripe {owners owners' : Assoc K Transaction} (h : t.stripes[i]? = some owners)
    (k : K) : (t.withStripe i owners').owner? k =
      if t.stripeOf k = i then owners'.get? k else t.owner? k := by
  have hi : i < t.stripes.size := (Array.getElem?_eq_some_iff.1 h).1
  have hstripe : (t.withStripe i owners').stripeOf k = t.stripeOf k :=
    congrFun (t.sameShape_withStripe i owners').stripeOf k
  rw [owner?, hstripe]
  by_cases hk : t.stripeOf k = i
  · rw [if_pos hk, hk, withStripe, Array.getElem?_setIfInBounds_self_of_lt hi]
  · rw [if_neg hk, withStripe, Array.getElem?_setIfInBounds_ne (Ne.symm hk), owner?]

/-- In a new table no key has an owner. -/
theorem owner?_create (stripes : Nat) (timeout : Duration) (hash : K → UInt64) (k : K) :
    (create stripes timeout hash).owner? k = none := by
  obtain ⟨owners, h⟩ := exists_stripe (size_pos_create stripes timeout hash) k
  rw [owner?_of_stripe h]
  rw [create, Array.getElem?_replicate] at h
  split at h
  · obtain rfl := Option.some.inj h
    exact Assoc.get?_empty k
  · cases h

/-! ### Giving back -/

/-- The keys with `P` that a transaction owns are freed, and no others. -/
def Frees (x : Transaction) (P : K → Prop) (t t' : LockTable K) : Prop :=
  ∀ k y, t'.owner? k = some y ↔ t.owner? k = some y ∧ ¬ (y = x ∧ P k)

namespace Frees

/-- It does not matter in which words the keys are described that are freed. -/
theorem congr (h : Frees x P t t') (hPQ : ∀ k, P k ↔ Q k) : Frees x Q t t' := fun k y => by
  rw [h k y, hPQ k]

/-- What is freed in two steps is freed. -/
theorem trans (h : Frees x P t t') (h' : Frees x Q t' t'') :
    Frees x (fun k => P k ∨ Q k) t t'' := fun k y => by
  rw [h' k y, h k y, and_assoc, ← not_or, ← and_or_left]

/-- Of the keys of the transaction those without `P` stay. -/
theorem owned_iff (h : Frees x P t t') : t'.owner? k = some x ↔ t.owner? k = some x ∧ ¬ P k := by
  rw [h k x]
  exact and_congr_right fun _ => not_congr ⟨And.right, fun hP => ⟨rfl, hP⟩⟩

/-- The keys of others stay as they are. -/
theorem other_iff (h : Frees x P t t') (hy : y ≠ x) :
    t'.owner? k = some y ↔ t.owner? k = some y := by
  rw [h k y]
  exact ⟨And.left, fun hk => ⟨hk, fun hx => hy hx.1⟩⟩

/-- A key that is freed has no owner. -/
theorem eq_none (h : Frees x P t t') (hx : t.owner? k = some x) (hP : P k) :
    t'.owner? k = none := by
  refine Option.eq_none_iff_forall_ne_some.2 fun y hy => ?_
  obtain ⟨hk, hnot⟩ := (h k y).1 hy
  exact hnot ⟨Option.some.inj (hk.symm.trans hx), hP⟩

end Frees

/-- Of a stripe the keys given that the transaction owns are taken out, and no others. -/
theorem get?_disown {owners : Assoc K Transaction} {keys : List K} :
    (disown x owners keys).2.get? k = some y ↔
      owners.get? k = some y ∧ ¬ (y = x ∧ k ∈ keys) := by
  induction keys generalizing owners with
  | nil => simp [disown]
  | cons a rest ih =>
    unfold disown
    split <;> rename_i ha
    · show (disown x (owners.erase a) rest).2.get? k = some y ↔ _
      rw [ih, Assoc.get?_erase, List.mem_cons]
      by_cases hk : k = a
      · subst hk
        simp [ha, eq_comm]
      · simp [hk]
    · rw [ih, List.mem_cons]
      by_cases hk : k = a
      · subst hk
        constructor
        · rintro ⟨hy, -⟩
          exact ⟨hy, fun hx => ha (hx.1 ▸ hy)⟩
        · rintro ⟨hy, -⟩
          exact ⟨hy, fun hx => ha (hx.1 ▸ hy)⟩
      · simp [hk]

/-- **Giving back keys of one stripe** frees those that the transaction owns. -/
theorem frees_releaseRun {run : List K} (hrun : ∀ k ∈ run, t.stripeOf k = i) (x : Transaction) :
    Frees x (· ∈ run) t (t.releaseRun x i run).2 := by
  intro k y
  unfold releaseRun
  cases h : t.stripes[i]? with
  | none =>
    have hout : t.owner? k = some y → k ∉ run := fun hy hk => by
      rw [owner?, hrun k hk, h] at hy
      cases hy
    exact ⟨fun hy => ⟨hy, fun hx => hout hy hx.2⟩, And.left⟩
  | some owners =>
    show (t.withStripe i (disown x owners run).2).owner? k = some y ↔ _
    rw [owner?_withStripe h]
    split
    · rename_i hs
      have howner : t.owner? k = owners.get? k := owner?_of_stripe (hs ▸ h)
      rw [get?_disown, howner]
    · rename_i hs
      have hout : k ∉ run := fun hk => hs (hrun k hk)
      exact ⟨fun hy => ⟨hy, fun hx => hout hx.2⟩, And.left⟩

/-- Giving back a run leaves the shape. -/
theorem sameShape_releaseRun (t : LockTable K) (x : Transaction) (i : Nat) (run : List K) :
    t.SameShape (t.releaseRun x i run).2 := by
  unfold releaseRun
  split
  · exact .refl t
  · exact t.sameShape_withStripe _ _

/-- **Giving back a stripe** frees those of its keys that the transaction owns. -/
theorem frees_releaseStripe (t : LockTable K) (x : Transaction) (i : Nat) :
    Frees x (fun k => t.stripeOf k = i) t (t.releaseStripe x i).2 := by
  intro k y
  unfold releaseStripe
  cases h : t.stripes[i]? with
  | none =>
    have hout : t.owner? k = some y → t.stripeOf k ≠ i := fun hy hk => by
      rw [owner?, hk, h] at hy
      cases hy
    exact ⟨fun hy => ⟨hy, fun hx => hout hy hx.2⟩, And.left⟩
  | some owners =>
    show (t.withStripe i (owners.filter fun _ owner => owner ≠ x)).owner? k = some y ↔ _
    rw [owner?_withStripe h]
    split
    · rename_i hs
      have howner : t.owner? k = owners.get? k := owner?_of_stripe (hs ▸ h)
      have hothers : y ≠ x ↔ ¬ (y = x ∧ t.stripeOf k = i) := not_congr (and_iff_left hs).symm
      rw [Assoc.get?_filter, Option.filter_eq_some_iff, howner, decide_eq_true_eq]
      exact and_congr_right fun _ => hothers
    · rename_i hs
      exact ⟨fun hy => ⟨hy, fun hx => hs hx.2⟩, And.left⟩

/-- Giving back run by run frees the keys of all runs that the transaction owns, and leaves the
shape. -/
theorem frees_releaseRuns {rest : List (Nat × List K)} (h : t.InStripes rest) (x : Transaction) :
    Frees x (· ∈ rest.flatMap Prod.snd) t (t.releaseRuns x rest).2 ∧
      t.SameShape (t.releaseRuns x rest).2 := by
  induction rest generalizing t with
  | nil => exact ⟨fun k y => by simp [releaseRuns], .refl t⟩
  | cons p rest ih =>
    obtain ⟨i, run⟩ := p
    obtain ⟨hrun, hrest⟩ := inStripes_cons_iff.1 h
    have hshape := t.sameShape_releaseRun x i run
    obtain ⟨hfrees, hshape'⟩ := ih (hrest.of_sameShape hshape)
    refine ⟨((frees_releaseRun hrun x).trans hfrees).congr fun k => ?_, hshape.trans hshape'⟩
    rw [List.flatMap_cons, List.mem_append]

/-- The keys that come once are those that come. -/
theorem mem_distinct {keys : List K} : k ∈ distinct keys ↔ k ∈ keys := by
  induction keys with
  | nil => rfl
  | cons a rest ih =>
    rw [distinct, List.mem_cons, List.mem_cons, List.mem_filter, ih]
    by_cases hk : k = a <;> simp [hk]

/-- **A release frees those of its keys that the transaction owns**, and no others. -/
theorem frees_release (t : LockTable K) (x : Transaction) (keys : List K) :
    Frees x (· ∈ keys) t (t.release x keys).2 := by
  have hruns := t.inStripes_runs (distinct keys)
  obtain ⟨hfrees, -⟩ := frees_releaseRuns hruns x
  refine hfrees.congr fun k => ?_
  rw [flatMap_runs, mem_distinct]

/-- A release leaves the shape. -/
theorem sameShape_release (t : LockTable K) (x : Transaction) (keys : List K) :
    t.SameShape (t.release x keys).2 := (frees_releaseRuns (t.inStripes_runs _) x).2

/-! ### Asking -/

/-- The keys with `P`, which had no owner, are the transaction's now, and that is all. -/
structure Takes (x : Transaction) (P : K → Prop) (t t' : LockTable K) : Prop where
  owner_iff : ∀ k y, t'.owner? k = some y ↔ t.owner? k = some y ∨ y = x ∧ P k
  fresh : ∀ k, P k → t.owner? k = none

namespace Takes

/-- Where there is nothing to take, nothing changes. -/
theorem nothing (hP : ∀ k, ¬ P k) (x : Transaction) (t : LockTable K) : Takes x P t t :=
  ⟨fun k _ => ⟨Or.inl, fun h => h.resolve_right fun hx => hP k hx.2⟩, fun k hk => absurd hk (hP k)⟩

/-- It does not matter in which words the keys are described that are taken. -/
theorem congr (h : Takes x P t t') (hPQ : ∀ k, P k ↔ Q k) : Takes x Q t t' :=
  ⟨fun k y => by rw [h.owner_iff k y, hPQ k], fun k hk => h.fresh k ((hPQ k).2 hk)⟩

/-- The keys that the transaction took are its own. -/
theorem owned (h : Takes x P t t') (hk : P k) : t'.owner? k = some x :=
  (h.owner_iff k x).2 (Or.inr ⟨rfl, hk⟩)

/-- Whoever owned a key still owns it. -/
theorem mono (h : Takes x P t t') (hy : t.owner? k = some y) : t'.owner? k = some y :=
  (h.owner_iff k y).2 (Or.inl hy)

/-- The other keys stay as they are. -/
theorem owner?_eq (h : Takes x P t t') (hk : ¬ P k) : t'.owner? k = t.owner? k :=
  Option.ext fun y => (h.owner_iff k y).trans
    ⟨fun h' => h'.resolve_right fun hx => hk hx.2, Or.inl⟩

/-- What is taken in two steps is taken. -/
theorem trans (h : Takes x P t t') (h' : Takes x Q t' t'') :
    Takes x (fun k => P k ∨ Q k) t t'' := by
  constructor
  · intro k y
    rw [h'.owner_iff k y, h.owner_iff k y, or_assoc, ← and_or_left]
  · intro k hk
    by_cases hP : P k
    · exact h.fresh k hP
    · have hQ : Q k := hk.resolve_left hP
      have hnone : t'.owner? k = none := h'.fresh k hQ
      rwa [h.owner?_eq hP] at hnone

/-- Who gives back what it took leaves all owners as they were. -/
theorem undo (h : Takes x P t t') (h' : Frees x P t' t'') (k : K) : t''.owner? k = t.owner? k := by
  refine Option.ext fun y => ?_
  rw [h' k y, h.owner_iff k y]
  constructor
  · rintro ⟨hy, hnot⟩
    exact hy.resolve_right hnot
  · intro hy
    refine ⟨Or.inl hy, fun hx => ?_⟩
    rw [h.fresh k hx.2] at hy
    cases hy

end Takes

/-- **Asking for a key** finds that it has no owner, and makes the requester its owner; or that it is
the requester's already; or that it is another's. -/
theorem attempt_cases (ht : 0 < t.stripes.size) (x : Transaction) (k : K) :
    ((t.attempt x k).1 = .fresh ∧ Takes x (· = k) t (t.attempt x k).2) ∨
    (t.attempt x k = (.reentrant, t) ∧ t.owner? k = some x) ∨
    ∃ y, t.attempt x k = (.blocked y, t) ∧ t.owner? k = some y ∧ y ≠ x := by
  obtain ⟨owners, h⟩ := exists_stripe ht k
  have howner := owner?_of_stripe h
  unfold attempt
  rw [h]
  cases hget : owners.get? k with
  | none =>
    have hnone := howner.trans hget
    refine Or.inl ⟨by simp only [hget], ⟨fun k' y => ?_, fun k' hk => hk ▸ hnone⟩⟩
    simp only [hget]
    show (t.withStripe (t.stripeOf k) (owners.insert k x)).owner? k' = some y ↔ _
    rw [owner?_withStripe h, Assoc.get?_insert]
    by_cases hk : k' = k
    · subst hk
      simp [hnone, eq_comm]
    · rw [if_neg hk]
      split
      · rename_i hs
        rw [owner?_of_stripe (hs ▸ h)]
        simp [hk]
      · simp [hk]
  | some y =>
    simp only [hget]
    by_cases hy : y = x
    · subst hy
      exact Or.inr (Or.inl ⟨if_pos rfl, howner.trans hget⟩)
    · exact Or.inr (Or.inr ⟨y, if_neg hy, howner.trans hget, hy⟩)

/-- Asking for a key leaves the shape. -/
theorem sameShape_attempt (t : LockTable K) (x : Transaction) (k : K) :
    t.SameShape (t.attempt x k).2 := by
  unfold attempt
  split
  · exact .refl t
  · split
    · exact t.sameShape_withStripe _ _
    · split <;> exact .refl t

/-! ### Acquisitions that nobody interrupts -/

/-- **Asking for keys until one is another's** takes those that had no owner.  In the end all keys are
the requester's, or the next one is another's. -/
theorem advance_cases (ht : 0 < t.stripes.size) (x : Transaction) (granted keys : List K) :
    ∃ new, (∀ k ∈ new, k ∈ keys) ∧ Takes x (· ∈ new) t (t.advance x granted keys).2 ∧
      ((t.advance x granted keys).1 = .done (granted ++ new) ∧
        (∀ k ∈ keys, (t.advance x granted keys).2.owner? k = some x) ∨
      ∃ pending k y, (t.advance x granted keys).1 = .blocked ⟨x, pending, granted ++ new⟩ k y) := by
  induction keys generalizing t granted with
  | nil =>
    exact ⟨[], by simp, .nothing (by simp) x t, Or.inl ⟨by simp [advance], by simp⟩⟩
  | cons k rest ih =>
    unfold advance
    rcases attempt_cases ht x k with ⟨hfst, htakes⟩ | ⟨heq, howned⟩ | ⟨y, heq, -, -⟩
    · rcases hp : t.attempt x k with ⟨g, t₁⟩
      rw [hp] at hfst htakes
      obtain rfl : g = .fresh := hfst
      have hshape : t.SameShape t₁ := by
        have := t.sameShape_attempt x k
        rwa [hp] at this
      obtain ⟨new, hnew, hrest, hend⟩ := ih (hshape.size.symm ▸ ht) (granted ++ [k])
      simp only
      refine ⟨k :: new, ?_, (htakes.trans hrest).congr fun a => List.mem_cons.symm, ?_⟩
      · rw [List.forall_mem_cons]
        exact ⟨List.mem_cons_self .., fun a ha => List.mem_cons_of_mem k (hnew a ha)⟩
      · rw [List.append_assoc] at hend
        refine hend.imp (fun h => ⟨h.1, ?_⟩) id
        rw [List.forall_mem_cons]
        exact ⟨hrest.mono (htakes.owned rfl), h.2⟩
    · obtain ⟨new, hnew, hrest, hend⟩ := ih ht granted
      simp only [heq]
      refine ⟨new, fun a ha => List.mem_cons_of_mem k (hnew a ha), hrest, ?_⟩
      refine hend.imp (fun h => ⟨h.1, ?_⟩) id
      rw [List.forall_mem_cons]
      exact ⟨hrest.mono howned, h.2⟩
    · simp only [heq]
      exact ⟨[], by simp, .nothing (by simp) x t, Or.inr ⟨k :: rest, k, y, by simp⟩⟩

/-- **An acquisition that nobody interrupts takes all its keys or none**: those that had no owner if
it succeeds, and then all its keys are the requester's; if it fails, all owners are as they were. -/
theorem acquire_cases (ht : 0 < t.stripes.size) (x : Transaction) (keys : List K) :
    (∃ granted, (t.acquire x keys).1 = .ok granted ∧ (∀ k ∈ granted, k ∈ keys) ∧
      Takes x (· ∈ granted) t (t.acquire x keys).2 ∧
      ∀ k ∈ keys, (t.acquire x keys).2.owner? k = some x) ∨
    ∃ e, (t.acquire x keys).1 = .error e ∧ ∀ k, (t.acquire x keys).2.owner? k = t.owner? k := by
  obtain ⟨new, hnew, htakes, hend⟩ := advance_cases ht x [] (distinct keys)
  unfold acquire request
  rcases hp : t.advance x [] (distinct keys) with ⟨p, t₁⟩
  rw [hp] at htakes hend
  rw [List.nil_append] at hend
  rcases hend with ⟨hdone, howned⟩ | ⟨pending, k, y, hblocked⟩
  · obtain rfl : p = .done new := hdone
    have hgranted : ∀ k ∈ new, k ∈ keys := fun k hk => mem_distinct.1 (hnew k hk)
    have hmine : ∀ k ∈ keys, t₁.owner? k = some x := fun k hk => howned k (mem_distinct.2 hk)
    exact Or.inl ⟨new, rfl, hgranted, htakes, hmine⟩
  · obtain rfl : p = .blocked ⟨x, pending, new⟩ k y := hblocked
    have hfrees : Frees x (· ∈ new) t₁ (t₁.release x new).2 := t₁.frees_release x new
    exact Or.inr ⟨_, rfl, htakes.undo hfrees⟩

/-- Asking for keys leaves the shape. -/
theorem sameShape_advance (t : LockTable K) (x : Transaction) (granted keys : List K) :
    t.SameShape (t.advance x granted keys).2 := by
  induction keys generalizing t granted with
  | nil => exact .refl t
  | cons k rest ih =>
    have hshape := t.sameShape_attempt x k
    unfold advance
    rcases ha : t.attempt x k with ⟨_ | _ | y, t₁⟩ <;> rw [ha] at hshape
    · exact hshape.trans (ih t₁ _)
    · exact hshape.trans (ih t₁ _)
    · exact hshape

/-- An acquisition leaves the shape, whether it is granted or not. -/
theorem sameShape_acquire (t : LockTable K) (x : Transaction) (keys : List K) :
    t.SameShape (t.acquire x keys).2 := by
  have hshape := t.sameShape_advance x [] (distinct keys)
  unfold acquire request
  rcases hp : t.advance x [] (distinct keys) with ⟨_ | ⟨a, k, y⟩, t₁⟩ <;> rw [hp] at hshape
  · exact hshape
  · exact hshape.trans (t₁.sameShape_release _ _)

end

end LockTable
end ClusterCache
