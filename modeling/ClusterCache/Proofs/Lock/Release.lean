/-
# Giving back undoes taking

A release is told keys in any order.  Some may come twice, some may be free, and some another's.  It
goes over them in runs of one stripe and visits a stripe as often as a run of it comes, so the count
that it carries along depends on the list at each moment.  In the end it does not: the keys that are
given back are those of the list that the transaction owns, each counted once, and it comes to the same
to give them back one at a time (`releaseEach_spec`).

Giving back everything walks over the stripes instead, so it needs every key to be in its own stripe.
No step of a call puts one elsewhere, whoever else is under way (`Contention.sound_turns`).

Together with what an acquisition answers this makes the two inverse: who gives back what it was granted
leaves all owners as they were (`release_undoes_acquire`).
-/

import ClusterCache.Proofs.Lock.Holdings

namespace ClusterCache

/-! ### Tables that calls lead to -/

namespace LockTable

variable {K : Type} [DecidableEq K] {t t' : LockTable K} {x : Transaction} {k : K}
  {keys keys' : List K}

/-- No step of a call puts a key into a stripe that is not its own. -/
theorem Sound.step (h : t.Sound) (up : Bool) (x : Transaction) (e : Errand K) :
    (e.step up x t).2.Sound :=
  e.table_step up x t h (h.attempt x) (h.releaseRun x) (h.releaseStripe x)

end LockTable

namespace Contention

variable {ι K : Type} [DecidableEq ι] [DecidableEq K] {who : ι → Transaction} {w : Contention ι K}

/-- A turn leaves every key in its own stripe. -/
theorem sound_turn (h : w.table.Sound) (p : ι × Turn K) : (w.turn who p).table.Sound :=
  w.table_turn who p h (h.step · ·)

/-- Every key is in its own stripe after any turns. -/
theorem sound_turns (h : w.table.Sound) (turns : List (ι × Turn K)) :
    (turns.foldl (turn who) w).table.Sound := by
  induction turns generalizing w with
  | nil => exact h
  | cons p rest ih => exact ih (sound_turn h p)

end Contention

namespace LockTable

variable {K : Type} [DecidableEq K] {t t' t'' : LockTable K} {x : Transaction} {k : K}
  {keys keys' : List K}

/-! ### Order and repetition -/

namespace Frees

variable {P Q : K → Prop}

/-- Who owns a key after some were freed. -/
theorem owner?_eq [DecidablePred P] (h : Frees x P t t') (k : K) :
    t'.owner? k = if t.owner? k = some x ∧ P k then none else t.owner? k := by
  split
  · rename_i hk
    exact h.eq_none hk.1 hk.2
  · rename_i hk
    refine Option.ext fun y => (h k y).trans ⟨And.left, fun hy => ⟨hy, ?_⟩⟩
    rintro ⟨rfl, hP⟩
    exact hk ⟨hy, hP⟩

/-- The same owners are left if the same keys are freed. -/
theorem unique (h : Frees x P t t') (h' : Frees x Q t t'') (hPQ : ∀ k, P k ↔ Q k) :
    t''.owner? = t'.owner? := by
  funext k
  exact Option.ext fun y => by rw [h k y, h' k y, hPQ]

end Frees

/-- How many keys of a list are counted does not depend on how they come. -/
theorem countP_distinct (hmem : ∀ k, k ∈ keys' ↔ k ∈ keys) (p : K → Bool) :
    (distinct keys').countP p = (distinct keys).countP p := by
  have hperm : (distinct keys').Perm (distinct keys) := by
    refine (List.perm_ext_iff_of_nodup (nodup_distinct _) (nodup_distinct _)).2 fun k => ?_
    rw [mem_distinct, mem_distinct, hmem]
  exact hperm.countP_eq p

/-- **A release answers the number of its keys that were the transaction's.** -/
theorem encard_released (ht : 0 < t.stripes.size) (x : Transaction) (keys : List K) :
    {k | t.owner? k = some x ∧ k ∈ keys}.encard = ((t.release x keys).1 : ENat) := by
  have hnodup := nodup_distinct keys
  rw [release_fst ht, List.countP_eq_length_filter]
  refine encard_eq_length (hnodup.filter _) fun k => ?_
  rw [List.mem_filter, mem_distinct, decide_eq_true_eq]
  exact and_comm

/-- Gives keys back one at a time; answers how many were the transaction's. -/
def releaseEach (t : LockTable K) (x : Transaction) : List K → Nat × LockTable K
  | [] => (0, t)
  | k :: rest =>
    let (n, t) := t.release x [k]
    let (m, t) := releaseEach t x rest
    (n + m, t)

/-- **Keys given back one at a time** come to as many as those given back together, and the same ones
are freed. -/
theorem releaseEach_spec (ht : 0 < t.stripes.size) (x : Transaction) (keys : List K) :
    (t.releaseEach x keys).1 = (t.release x keys).1 ∧
      Frees x (· ∈ keys) t (t.releaseEach x keys).2 := by
  rw [release_fst ht]
  induction keys generalizing t with
  | nil => exact ⟨rfl, fun k y => by simp [releaseEach]⟩
  | cons a rest ih =>
    have hfrees := t.frees_release x [a]
    have hcount : (t.release x [a]).1 = if t.owner? a = some x then 1 else 0 := by
      rw [release_fst ht]
      by_cases ha : t.owner? a = some x <;> simp [distinct, ha]
    obtain ⟨hfst, hrest⟩ := ih ((t.sameShape_release x [a]).size.symm ▸ ht)
    -- Of the rest only those are still the transaction's that are not `a`.
    have howned : ∀ k, (t.release x [a]).2.owner? k = some x ↔ t.owner? k = some x ∧ k ≠ a :=
      fun k => hfrees.owned_iff.trans (and_congr_right fun _ => not_congr List.mem_singleton)
    constructor
    · show (t.release x [a]).1 + ((t.release x [a]).2.releaseEach x rest).1 = _
      rw [hcount, hfst, distinct, List.countP_cons, List.countP_filter, Nat.add_comm]
      congr 1
      · exact List.countP_congr fun k _ => by simp [howned]
      · simp only [decide_eq_true_eq]
    · refine (hfrees.trans hrest).congr fun k => ?_
      rw [List.mem_singleton, List.mem_cons]

/-! ### Taken and given back -/

/-- **Who gives back what it was granted** gives back all of it, and leaves all owners as they were. -/
theorem release_granted (ht : 0 < t.stripes.size) {granted : List K}
    (h : (t.acquire x keys).1 = .ok granted) :
    ((t.acquire x keys).2.release x granted).1 = granted.length ∧
      ((t.acquire x keys).2.release x granted).2.owner? = t.owner? := by
  cases hfind : keys.find? (t.isForeign x) with
  | some k =>
    obtain ⟨y, hy, -⟩ := isForeign_eq_true_iff.1 (List.find?_some hfind)
    rw [(acquire_of_foreign ht hfind hy).1] at h
    cases h
  | none =>
    obtain ⟨hanswer, htakes⟩ := acquire_of_free ht (by simpa using hfind)
    obtain rfl : (t.free keys).eraseDups = granted := Except.ok.inj (hanswer.symm.trans h)
    have hgranted : ∀ k, k ∈ t.free keys ↔ k ∈ (t.free keys).eraseDups := fun k =>
      List.mem_eraseDups.symm
    constructor
    · have hsize := (t.sameShape_acquire x keys).size.symm ▸ ht
      rw [release_fst hsize, countP_distinct (fun k => (hgranted k).symm), List.countP_eq_length.2,
        distinct_eq_eraseDups]
      intro k hk
      exact decide_eq_true (htakes.owned (mem_distinct.1 hk))
    · funext k
      exact (htakes.congr hgranted).undo (frees_release _ x _) k

/-- **Giving back is exact.**  Let a table come out of any calls, whoever made them and however their
steps came one after another.  A release answers how many keys of its list its transaction owned, frees
these and changes the owner of no other key.  The answer and the owners are the same for every list of
the same keys, in another order or with other repetitions, and if the keys of such a list are given back
one at a time and counted together.  Who gives back everything is told each of its keys once; these are
freed, and no others.  And if an acquisition was granted, giving back what it answered gives back as
many keys, and all owners are as they were before. -/
theorem release_undoes_acquire {ι : Type} [DecidableEq ι] (who : ι → Transaction)
    (turns : List (ι × Turn K)) (stripes : Nat) (timeout : Duration) (hash : K → UInt64)
    (x : Transaction) (keys : List K) :
    let t := (turns.foldl (Contention.turn who) (.start (create stripes timeout hash))).table
    ({k | t.owner? k = some x ∧ k ∈ keys}.encard = ((t.release x keys).1 : ENat) ∧
      ∀ k, (t.release x keys).2.owner? k =
        if t.owner? k = some x ∧ k ∈ keys then none else t.owner? k) ∧
    (∀ keys', (∀ k, k ∈ keys' ↔ k ∈ keys) →
      ((t.release x keys').1 = (t.release x keys).1 ∧
        (t.release x keys').2.owner? = (t.release x keys).2.owner?) ∧
      (t.releaseEach x keys').1 = (t.release x keys).1 ∧
        (t.releaseEach x keys').2.owner? = (t.release x keys).2.owner?) ∧
    ((t.releaseAll x).1.Nodup ∧ (∀ k, k ∈ (t.releaseAll x).1 ↔ t.owner? k = some x) ∧
      ∀ k, (t.releaseAll x).2.owner? k = if t.owner? k = some x then none else t.owner? k) ∧
    ∀ granted, (t.acquire x keys).1 = .ok granted →
      ((t.acquire x keys).2.release x granted).1 = granted.length ∧
        ((t.acquire x keys).2.release x granted).2.owner? = t.owner? := by
  intro t
  have hsound : t.Sound := Contention.sound_turns (sound_create stripes timeout hash) turns
  have ht := hsound.size
  refine ⟨⟨encard_released ht x keys, (t.frees_release x keys).owner?_eq⟩, ?_, ?_, fun _ =>
    release_granted ht⟩
  · intro keys' hmem
    obtain ⟨hcount, hfrees⟩ := releaseEach_spec ht x keys'
    have hfst : (t.release x keys').1 = (t.release x keys).1 := by
      rw [release_fst ht, release_fst ht, countP_distinct hmem]
    have hkeys := t.frees_release x keys
    exact ⟨⟨hfst, hkeys.unique (t.frees_release x keys') fun k => (hmem k).symm⟩,
      hcount.trans hfst, hkeys.unique hfrees fun k => (hmem k).symm⟩
  · have hback := releaseAll_spec hsound x
    refine ⟨hback.nodup, fun k => (hback.mem k).trans (and_iff_left trivial), fun k => ?_⟩
    rw [hback.frees.owner?_eq k]
    simp only [and_true]

/-- Keys 1 and 2 are one transaction's and key 3 is another's; key 4 is free. -/
theorem release_undoes_acquire_of_two :
    let who : Bool → Transaction := fun b => ⟨if b then 1 else 2, ⟨"a"⟩⟩
    let turns : List (Bool × Turn Nat) := [
      (true, .ask (.acquire [1, 2])), (false, .ask (.acquire [3])), (true, .go false),
      (false, .go false), (true, .go false), (false, .go false), (true, .go false)]
    let t := (turns.foldl (Contention.turn who) (.start (create 2 .zero fun n => .ofNat n))).table
    (t.release (who true) [3, 1, 4, 2, 1]).1 = 2 ∧
    (t.releaseEach (who true) [4, 2, 3, 1]).1 = 2 ∧
    (∀ k, (t.release (who true) [3, 1, 4, 2, 1]).2.owner? k =
      if t.owner? k = some (who true) ∧ k ∈ [3, 1, 4, 2, 1] then none else t.owner? k) ∧
    (t.releaseEach (who true) [4, 2, 3, 1]).2.owner? =
      (t.release (who true) [3, 1, 4, 2, 1]).2.owner? ∧
    ∃ granted, (t.acquire (who true) [4, 1, 4]).1 = .ok granted ∧
      ((t.acquire (who true) [4, 1, 4]).2.release (who true) granted).1 = granted.length ∧
      ((t.acquire (who true) [4, 1, 4]).2.release (who true) granted).2.owner? = t.owner? := by
  intro who turns t
  have hfree : ∀ k ∈ [4, 1, 4], t.isForeign (who true) k = false := by decide +kernel
  have hgranted := (acquire_of_free (by decide +kernel) hfree).1
  have hlist := release_undoes_acquire who turns 2 .zero (fun n => .ofNat n) (who true) [3, 1, 4, 2, 1]
  have hundo := release_undoes_acquire who turns 2 .zero (fun n => .ofNat n) (who true) [4, 1, 4]
  have hmem : ∀ k, k ∈ [4, 2, 3, 1] ↔ k ∈ [3, 1, 4, 2, 1] := fun k => by
    simp only [List.mem_cons, List.not_mem_nil, or_false]
    omega
  exact ⟨by decide +kernel, by decide +kernel, hlist.1.2, (hlist.2.1 _ hmem).2.2, _, hgranted,
    hundo.2.2.2 _ hgranted⟩

end LockTable
end ClusterCache
