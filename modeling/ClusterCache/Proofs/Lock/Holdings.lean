/-
# The keys that have an owner

A key is looked up in the stripe that its hash names, and nowhere else.  What walks over all stripes,
to count the keys or to give them all back, finds the same keys as long as each is in its own stripe
(`Sound`), and no step ever puts one elsewhere.

So the number of keys that have an owner is the sum over the stripes (`encard_locked`); a release
answers how many of its keys were the transaction's (`release_fst`); and who gives back everything is
told each of its keys once, and has none left (`releaseAll_spec`).
-/

import ClusterCache.Proofs.Lock.Acquisition
import ClusterCache.Proofs.Rows

namespace ClusterCache
namespace LockTable

variable {K : Type} [DecidableEq K] {t t' : LockTable K} {x : Transaction} {k : K} {i : Nat}
  {keys : List K}

/-! ### Each key in its own stripe -/

/-- There is a stripe, and a key that has an owner is in its own one. -/
structure Sound (t : LockTable K) : Prop where
  size : 0 < t.stripes.size
  home : ∀ i owners, t.stripes[i]? = some owners → ∀ k ∈ owners.keys, t.stripeOf k = i

omit [DecidableEq K] in
/-- In a new table no key is out of its stripe. -/
theorem sound_create (stripes : Nat) (timeout : Duration) (hash : K → UInt64) :
    (create stripes timeout hash).Sound := by
  refine ⟨size_pos_create stripes timeout hash, fun i owners h k hk => ?_⟩
  rw [create, Array.getElem?_replicate] at h
  split at h
  · obtain rfl := Option.some.inj h
    cases hk
  · cases h

namespace Sound

omit [DecidableEq K] in
/-- Of a stripe others may take the place whose keys belong there too. -/
theorem withStripe {owners : Assoc K Transaction} (h : t.Sound)
    (howners : ∀ k ∈ owners.keys, t.stripeOf k = i) : (t.withStripe i owners).Sound := by
  have hshape := t.sameShape_withStripe i owners
  refine ⟨hshape.size.symm ▸ h.size, fun j owners' hj k hk => ?_⟩
  rw [hshape.stripeOf]
  rw [LockTable.withStripe, Array.getElem?_setIfInBounds] at hj
  split at hj
  · rename_i hij
    split at hj
    · obtain rfl := Option.some.inj hj
      exact (howners k hk).trans hij
    · cases hj
  · exact h.home j owners' hj k hk

/-- A key that is granted goes into its own stripe. -/
theorem attempt (h : t.Sound) (x : Transaction) (k : K) : (t.attempt x k).2.Sound := by
  unfold LockTable.attempt
  split
  · exact h
  · rename_i owners howners
    split
    · refine h.withStripe fun a ha => ?_
      obtain ⟨y, hy⟩ := Assoc.mem_keys_iff.1 ha
      rw [Assoc.get?_insert] at hy
      by_cases hak : a = k
      · rw [hak]
      · rw [if_neg hak] at hy
        have hold : a ∈ owners.keys := Assoc.mem_keys_iff.2 ⟨y, hy⟩
        exact h.home _ owners howners a hold
    · split <;> exact h

/-- Giving back a run moves no key to another stripe. -/
theorem releaseRun (h : t.Sound) (x : Transaction) (i : Nat) (run : List K) :
    (t.releaseRun x i run).2.Sound := by
  unfold LockTable.releaseRun
  split
  · exact h
  · rename_i owners howners
    refine h.withStripe fun k hk => ?_
    obtain ⟨y, hy⟩ := Assoc.mem_keys_iff.1 hk
    have hget : owners.get? k = some y := (get?_disown.1 hy).1
    have hold : k ∈ owners.keys := Assoc.mem_keys_iff.2 ⟨y, hget⟩
    exact h.home i owners howners k hold

/-- Giving back all of one stripe moves no key to another. -/
theorem releaseStripe (h : t.Sound) (x : Transaction) (i : Nat) :
    (t.releaseStripe x i).2.Sound := by
  unfold LockTable.releaseStripe
  split
  · exact h
  · rename_i owners howners
    refine h.withStripe fun k hk => ?_
    obtain ⟨y, hy⟩ := Assoc.mem_keys_iff.1 hk
    rw [Assoc.get?_filter, Option.filter_eq_some_iff] at hy
    have hold : k ∈ owners.keys := Assoc.mem_keys_iff.2 ⟨y, hy.1⟩
    exact h.home i owners howners k hold

/-- An acquisition keeps every key in its own stripe. -/
theorem advance (h : t.Sound) (x : Transaction) (granted keys : List K) :
    (t.advance x granted keys).2.Sound := by
  induction keys generalizing t granted with
  | nil => exact h
  | cons k rest ih =>
    have hattempt := h.attempt x k
    unfold LockTable.advance
    rcases ha : t.attempt x k with ⟨_ | _ | y, t₁⟩ <;> rw [ha] at hattempt
    · exact ih hattempt _
    · exact ih hattempt _
    · exact hattempt

/-- Giving back run by run moves no key to another stripe. -/
theorem releaseRuns (h : t.Sound) (x : Transaction) (rest : List (Nat × List K)) :
    (t.releaseRuns x rest).2.Sound := by
  induction rest generalizing t with
  | nil => exact h
  | cons p rest ih => exact ih (h.releaseRun x p.1 p.2)

/-- A release moves no key to another stripe. -/
theorem release (h : t.Sound) (x : Transaction) (keys : List K) : (t.release x keys).2.Sound :=
  h.releaseRuns x _

/-- An acquisition keeps every key in its own stripe, whether it is granted or not. -/
theorem acquire (h : t.Sound) (x : Transaction) (keys : List K) : (t.acquire x keys).2.Sound := by
  have hadvance := h.advance x [] (distinct keys)
  unfold LockTable.acquire request
  rcases hp : t.advance x [] (distinct keys) with ⟨_ | ⟨a, k, y⟩, t₁⟩ <;> rw [hp] at hadvance
  · exact hadvance
  · exact hadvance.release _ _

end Sound

/-! ### How many there are -/

/-- A key is in its own stripe if it has an owner. -/
theorem owner?_eq_some_iff (h : t.Sound) {y : Transaction} :
    t.owner? k = some y ↔
      ∃ (i : Nat) (owners : Assoc K Transaction), t.stripes[i]? = some owners ∧
        owners.get? k = some y := by
  constructor
  · intro hy
    obtain ⟨owners, howners⟩ := exists_stripe h.size k
    exact ⟨_, owners, howners, owner?_of_stripe howners ▸ hy⟩
  · rintro ⟨i, owners, howners, hy⟩
    have hi := h.home i owners howners k (Assoc.mem_keys_iff.2 ⟨y, hy⟩)
    rw [owner?_of_stripe (hi ▸ howners), hy]

/-- **`lockedCount` is the number of keys that have an owner.** -/
theorem encard_locked (h : t.Sound) :
    {k | (t.owner? k).isSome}.encard = (t.lockedCount : ENat) := by
  have hcount : t.lockedCount = (t.stripes.toList.flatMap Assoc.keys).length :=
    total_eq_length_flatMap (fun owners => by rw [Assoc.keys, List.length_map, Assoc.length_toList]) _
  rw [hcount]
  refine encard_eq_length ?_ fun k => ?_
  · refine nodup_flatMap_of_row t.stripeOf (fun owners _ => owners.nodup_keys) fun i owners hi => ?_
    exact h.home i owners (by rwa [← Array.getElem?_toList])
  · rw [List.mem_flatMap, Option.isSome_iff_exists]
    constructor
    · rintro ⟨owners, howners, hk⟩
      obtain ⟨y, hy⟩ := Assoc.mem_keys_iff.1 hk
      obtain ⟨i, hi⟩ := List.getElem?_of_mem howners
      have hstripe : t.stripes[i]? = some owners := by rwa [← Array.getElem?_toList]
      exact ⟨y, (owner?_eq_some_iff h).2 ⟨i, owners, hstripe, hy⟩⟩
    · rintro ⟨y, hy⟩
      obtain ⟨i, owners, hi, hy⟩ := (owner?_eq_some_iff h).1 hy
      have hstripe : t.stripes.toList[i]? = some owners := by rwa [Array.getElem?_toList]
      exact ⟨owners, List.mem_of_getElem? hstripe, Assoc.mem_keys_iff.2 ⟨y, hy⟩⟩

/-! ### How many were given back -/

/-- As many keys are taken out of a stripe as the transaction owns of those given. -/
theorem disown_fst {owners : Assoc K Transaction} (hnd : keys.Nodup) :
    (disown x owners keys).1 = keys.countP fun k => owners.get? k = some x := by
  induction keys generalizing owners with
  | nil => rfl
  | cons a rest ih =>
    obtain ⟨ha, hnd⟩ := List.nodup_cons.1 hnd
    unfold disown
    split <;> rename_i hx
    · -- What is counted of the rest does not depend on `a`.
      have hrest : ∀ k ∈ rest, (owners.erase a).get? k = owners.get? k := fun k hk => by
        rw [Assoc.get?_erase, if_neg]
        rintro rfl
        exact ha hk
      show (disown x (owners.erase a) rest).1 + 1 = _
      rw [ih hnd, List.countP_cons, hx, decide_eq_true rfl, if_pos rfl]
      exact congrArg (· + 1) (List.countP_congr fun k hk => by rw [hrest k hk])
    · rw [ih hnd, List.countP_cons, decide_eq_false hx, if_neg Bool.false_ne_true, Nat.add_zero]

/-- As many keys of a run are given back as the transaction owns of it. -/
theorem releaseRun_fst {run : List K} (ht : 0 < t.stripes.size) (hrun : ∀ k ∈ run, t.stripeOf k = i)
    (hnd : run.Nodup) : (t.releaseRun x i run).1 = run.countP fun k => t.owner? k = some x := by
  unfold releaseRun
  cases h : t.stripes[i]? with
  | none =>
    refine (List.countP_eq_zero.2 fun k hk => ?_).symm
    obtain ⟨owners, howners⟩ := exists_stripe ht k
    rw [hrun k hk, h] at howners
    cases howners
  | some owners =>
    show (disown x owners run).1 = _
    rw [disown_fst hnd]
    refine List.countP_congr fun k hk => ?_
    have hstripe : t.stripes[t.stripeOf k]? = some owners := (hrun k hk).symm ▸ h
    rw [owner?_of_stripe hstripe]

/-- As many keys of all runs are given back as the transaction owns of them. -/
theorem releaseRuns_fst {rest : List (Nat × List K)} (ht : 0 < t.stripes.size)
    (h : t.InStripes rest) (hnd : (rest.flatMap Prod.snd).Nodup) :
    (t.releaseRuns x rest).1 = (rest.flatMap Prod.snd).countP fun k => t.owner? k = some x := by
  induction rest generalizing t with
  | nil => rfl
  | cons p rest ih =>
    obtain ⟨i, run⟩ := p
    obtain ⟨hrun, hrest⟩ := inStripes_cons_iff.1 h
    rw [List.flatMap_cons, List.nodup_append] at hnd
    obtain ⟨hndrun, hndrest, hne⟩ := hnd
    have hshape := t.sameShape_releaseRun x i run
    have hfrees := frees_releaseRun hrun x
    have ih := ih (hshape.size.symm ▸ ht) (hrest.of_sameShape hshape) hndrest
    -- The keys of the other runs are as they were.
    have hsame : ∀ k ∈ rest.flatMap Prod.snd,
        (t.releaseRun x i run).2.owner? k = some x ↔ t.owner? k = some x := fun k hk =>
      hfrees.owned_iff.trans (and_iff_left fun hk' => hne k hk' k hk rfl)
    show (t.releaseRun x i run).1 + ((t.releaseRun x i run).2.releaseRuns x rest).1 = _
    rw [List.flatMap_cons, List.countP_append, releaseRun_fst ht hrun hndrun, ih]
    refine congrArg _ (List.countP_congr fun k hk => ?_)
    rw [decide_eq_true_eq, decide_eq_true_eq]
    exact hsame k hk

/-- **A release answers how many of its keys were the transaction's.** -/
theorem release_fst (ht : 0 < t.stripes.size) (x : Transaction) (keys : List K) :
    (t.release x keys).1 = (distinct keys).countP fun k => t.owner? k = some x := by
  have hkeys := t.flatMap_runs (distinct keys)
  have hnd := nodup_distinct keys
  rw [release, releaseRuns_fst ht (t.inStripes_runs _) (hkeys.symm ▸ hnd), hkeys]

/-! ### Giving back everything -/

/-- The keys that a stripe gives back are those of the transaction in it. -/
theorem mem_releaseStripe (h : t.Sound) :
    k ∈ (t.releaseStripe x i).1 ↔ t.owner? k = some x ∧ t.stripeOf k = i := by
  unfold releaseStripe
  cases hi : t.stripes[i]? with
  | none =>
    refine iff_of_false List.not_mem_nil ?_
    rintro ⟨-, rfl⟩
    obtain ⟨owners, howners⟩ := exists_stripe h.size k
    rw [hi] at howners
    cases howners
  | some owners =>
    show k ∈ (owners.filter fun _ owner => owner = x).keys ↔ _
    rw [Assoc.mem_keys_iff]
    simp only [Assoc.get?_filter, Option.filter_eq_some_iff, decide_eq_true_eq]
    constructor
    · rintro ⟨y, hy, rfl⟩
      have howned : t.owner? k = some y := (owner?_eq_some_iff h).2 ⟨i, owners, hi, hy⟩
      have hhome : t.stripeOf k = i := h.home i owners hi k (Assoc.mem_keys_iff.2 ⟨y, hy⟩)
      exact ⟨howned, hhome⟩
    · rintro ⟨hx, rfl⟩
      exact ⟨x, owner?_of_stripe hi ▸ hx, rfl⟩

omit [DecidableEq K] in
/-- No stripe gives a key back twice. -/
theorem nodup_releaseStripe (t : LockTable K) (x : Transaction) (i : Nat) :
    (t.releaseStripe x i).1.Nodup := by
  unfold releaseStripe
  split
  · exact List.nodup_nil
  · exact Assoc.nodup_keys _

/-- What comes of giving back all that `x` owns in the stripes with `P`. -/
structure GivesBack (x : Transaction) (P : Nat → Prop) (t : LockTable K) (keys : List K)
    (t' : LockTable K) : Prop where
  sound : t'.Sound
  shape : t.SameShape t'
  frees : Frees x (fun k => P (t.stripeOf k)) t t'
  nodup : keys.Nodup
  mem : ∀ k, k ∈ keys ↔ t.owner? k = some x ∧ P (t.stripeOf k)

/-- Stripe by stripe, all keys that the transaction owns in the stripes given are given back, in
front of those given back before. -/
theorem releaseStripes_spec (h : t.Sound) (x : Transaction) (released : List K) (stripes : List Nat) :
    ∃ keys, (t.releaseStripes x released stripes).1 = keys ++ released ∧
      t.GivesBack x (· ∈ stripes) keys (t.releaseStripes x released stripes).2 := by
  induction stripes generalizing t released with
  | nil =>
    refine ⟨[], rfl, h, .refl t, fun k y => ?_, List.nodup_nil, fun k => ?_⟩
    · simp [releaseStripes]
    · simp
  | cons i rest ih =>
    have hshape := t.sameShape_releaseStripe x i
    have hfrees := t.frees_releaseStripe x i
    obtain ⟨keys, hkeys, hback⟩ := ih (h.releaseStripe x i) ((t.releaseStripe x i).1 ++ released)
    have hmem : ∀ k, k ∈ keys ++ (t.releaseStripe x i).1 ↔
        t.owner? k = some x ∧ t.stripeOf k ∈ i :: rest := fun k => by
      rw [List.mem_append, hback.mem, hfrees.owned_iff, hshape.stripeOf, mem_releaseStripe h,
        List.mem_cons]
      by_cases hi : t.stripeOf k = i <;> simp [hi]
    refine ⟨keys ++ (t.releaseStripe x i).1, ?_, hback.sound, hshape.trans hback.shape, ?_, ?_, hmem⟩
    · rw [List.append_assoc]
      exact hkeys
    · have hrest := hback.frees
      rw [hshape.stripeOf] at hrest
      exact (hfrees.trans hrest).congr fun k => List.mem_cons.symm
    · refine hback.nodup.append (t.nodup_releaseStripe x i) fun k hk hk' => ?_
      -- What was given back is the transaction's no more.
      rw [hback.mem, hfrees.owned_iff] at hk
      exact hk.1.2 ((mem_releaseStripe h).1 hk').2

/-- **Who gives back everything** is told each of its keys once, and has none left. -/
theorem releaseAll_spec (h : t.Sound) (x : Transaction) :
    t.GivesBack x (fun _ => True) (t.releaseAll x).1 (t.releaseAll x).2 := by
  obtain ⟨keys, hkeys, hback⟩ := releaseStripes_spec h x [] (List.range t.stripes.size)
  have hall : ∀ k, t.stripeOf k ∈ List.range t.stripes.size ↔ True := fun k =>
    iff_true_intro (List.mem_range.2 (Nat.mod_lt _ h.size))
  rw [List.append_nil] at hkeys
  rw [releaseAll, hkeys]
  refine ⟨hback.sound, hback.shape, hback.frees.congr hall, hback.nodup, fun k => ?_⟩
  rw [hback.mem, hall]

end LockTable
end ClusterCache
