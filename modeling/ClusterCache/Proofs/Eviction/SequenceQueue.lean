/-
# A sequence queue is a list of distinct keys

The two maps of a queue are kept *coherent*: each is the inverse of the other, and every number
that was handed out is less than the next one (`Coherent`).  Every operation keeps them so.

Seen through `toList`, the operations are those of a list without repetitions: `pushBack` takes the
key out and appends it (`toList_pushBack`), `remove` takes it out (`toList_remove`), and `popFront`
splits off the head (`popFront_fst`, `toList_popFront`).  The numbers themselves do not show.
-/

import Mathlib.Data.List.Nodup
import ClusterCache.Eviction.SequenceQueue

namespace ClusterCache
namespace SequenceQueue

/-! ### Entries in the order of their numbers -/

section Entries

variable {α : Type} {order : Std.TreeMap Nat α} {n : Nat}

/-- The entries come in ascending order of their numbers. -/
theorem sorted_toList (order : Std.TreeMap Nat α) :
    order.toList.Pairwise fun a b => a.1 < b.1 :=
  order.ordered_keys_toList.imp fun h => Nat.compare_eq_lt.1 h

/-- A list of entries in the order of their numbers is known by its members. -/
theorem eq_of_mem_iff {xs ys : List (Nat × α)} (hx : xs.Pairwise fun a b => a.1 < b.1)
    (hy : ys.Pairwise fun a b => a.1 < b.1) (h : ∀ n a, (n, a) ∈ xs ↔ (n, a) ∈ ys) : xs = ys := by
  have hnd : ∀ zs : List (Nat × α), zs.Pairwise (fun a b => a.1 < b.1) → zs.Nodup :=
    fun zs hz => hz.imp fun {a b} hlt he => by rw [he] at hlt; exact Nat.lt_irrefl _ hlt
  refine List.Perm.eq_of_pairwise (fun _ _ _ _ hab hba => absurd hba (Nat.lt_asymm hab)) hx hy ?_
  exact (List.perm_ext_iff_of_nodup (hnd xs hx) (hnd ys hy)).2 fun e => h e.1 e.2

/-- An entry with a number above all others is the last. -/
theorem toList_insert_above {a : α} (h : ∀ m b, order[m]? = some b → m < n) :
    (order.insert n a).toList = order.toList ++ [(n, a)] := by
  have hlt : ∀ e ∈ order.toList, e.1 < n := fun e he =>
    h e.1 e.2 (Std.TreeMap.mem_toList_iff_getElem?_eq_some.1 he)
  refine eq_of_mem_iff (sorted_toList _) (List.pairwise_append.2 ⟨sorted_toList _, by simp, ?_⟩)
    fun m b => ?_
  · intro e he e' he'
    rw [List.mem_singleton] at he'
    subst he'
    exact hlt e he
  · rw [List.mem_append, List.mem_singleton, Std.TreeMap.mem_toList_iff_getElem?_eq_some,
      Std.TreeMap.mem_toList_iff_getElem?_eq_some, Std.TreeMap.getElem?_insert]
    by_cases hm : n = m
    · subst hm
      have : order[n]? ≠ some b := fun hb => Nat.lt_irrefl _ (h n b hb)
      simp [this, eq_comm]
    · have : compare n m ≠ .eq := fun hc => hm (Std.LawfulEqOrd.eq_of_compare hc)
      simp [this, Ne.symm hm]

/-- Erasing a number takes its entry out of the order. -/
theorem toList_erase (order : Std.TreeMap Nat α) (n : Nat) :
    (order.erase n).toList = order.toList.filter fun e => e.1 ≠ n := by
  refine eq_of_mem_iff (sorted_toList _) ((sorted_toList _).filter _) fun m b => ?_
  rw [List.mem_filter, Std.TreeMap.mem_toList_iff_getElem?_eq_some,
    Std.TreeMap.mem_toList_iff_getElem?_eq_some, Std.TreeMap.getElem?_erase]
  by_cases hm : n = m
  · simp [hm]
  · have : compare n m ≠ .eq := fun hc => hm (Std.LawfulEqOrd.eq_of_compare hc)
    simp [this, Ne.symm hm]

/-- The keys come in the order of their entries. -/
theorem values_eq_map_toList (order : Std.TreeMap Nat α) :
    order.values = order.toList.map Prod.snd := by
  rw [show order.values = order.inner.inner.values from rfl,
    Std.DTreeMap.Internal.Impl.values_eq_map_snd,
    show order.toList = Std.DTreeMap.Internal.Impl.Const.toList order.inner.inner from rfl,
    Std.DTreeMap.Internal.Impl.Const.toList_eq_toListModel_map, List.map_map]
  rfl

end Entries

/-! ### Coherent queues -/

variable {K : Type} [DecidableEq K] [Hashable K] {q : SequenceQueue K} {k : K}

/-- The two maps of a queue fit each other. -/
structure Coherent (q : SequenceQueue K) : Prop where
  /-- Each map is the inverse of the other. -/
  inverse : ∀ n k, q.order[n]? = some k ↔ q.seqs.get? k = some n
  /-- The next number is above all that are in use. -/
  fresh : ∀ n k, q.order[n]? = some k → n < q.next

/-- The keys of the queue are those of its order. -/
theorem toList_eq (q : SequenceQueue K) : q.toList = q.order.toList.map Prod.snd :=
  values_eq_map_toList q.order

/-- There are no keys in the empty queue. -/
@[simp] theorem toList_empty : (empty : SequenceQueue K).toList = [] := rfl

/-- There are no keys in a queue that was cleared. -/
@[simp] theorem toList_clear (q : SequenceQueue K) : q.clear.toList = [] := rfl

/-- The size of a queue is the length of its list. -/
theorem size_eq_length (q : SequenceQueue K) : q.size = q.toList.length := by
  rw [toList_eq, List.length_map, Std.TreeMap.length_toList, size]

/-- The front of a queue is the first of its list. -/
theorem front?_eq_head? (q : SequenceQueue K) : q.front? = q.toList.head? := by
  rw [front?, least?_eq_head?, toList_eq, List.head?_map]

/-- In the empty queue both maps agree. -/
theorem coherent_empty : (empty : SequenceQueue K).Coherent :=
  ⟨fun n k => by simp [empty], fun n k h => by simp [empty] at h⟩

/-- In a queue that was cleared both maps agree. -/
theorem coherent_clear (q : SequenceQueue K) : q.clear.Coherent :=
  ⟨fun n k => by simp [clear], fun n k h => by simp [clear] at h⟩

/-- The keys in the queue are those that have a number. -/
theorem Coherent.mem_toList_iff (hq : q.Coherent) :
    k ∈ q.toList ↔ ∃ n, q.seqs.get? k = some n := by
  simp only [toList_eq, List.mem_map, Prod.exists, exists_eq_right,
    Std.TreeMap.mem_toList_iff_getElem?_eq_some, hq.inverse]

/-- The queue says of a key that it contains it exactly if it is in the list. -/
theorem Coherent.contains_iff (hq : q.Coherent) : q.contains k = true ↔ k ∈ q.toList := by
  rw [hq.mem_toList_iff, contains, KeyMap.contains, Option.isSome_iff_exists]

/-- No key is twice in the queue, as it has only one number. -/
theorem Coherent.nodup_toList (hq : q.Coherent) : q.toList.Nodup := by
  rw [toList_eq, List.Nodup, List.pairwise_map]
  refine (sorted_toList q.order).imp_of_mem ?_
  rintro ⟨n, a⟩ ⟨m, b⟩ ha hb hlt rfl
  -- one key has one number
  have hn := (hq.inverse n a).1 (Std.TreeMap.mem_toList_iff_getElem?_eq_some.1 ha)
  have hm := (hq.inverse m a).1 (Std.TreeMap.mem_toList_iff_getElem?_eq_some.1 hb)
  have : n = m := Option.some.inj (hn.symm.trans hm)
  simp only at hlt
  omega

/-! ### Taking a key out -/

/-- A removal takes the key out of both maps. -/
theorem Coherent.remove (hq : q.Coherent) (k : K) : (q.remove k).2.Coherent := by
  unfold SequenceQueue.remove
  split
  · rename_i seq hseq
    have hk := (hq.inverse seq k).2 hseq
    constructor
    · intro n k'
      simp only [Std.TreeMap.getElem?_erase, KeyMap.get?_erase]
      by_cases hn : seq = n
      · subst hn
        by_cases hkk : k' = k
        · simp [hkk]
        · have : q.seqs.get? k' ≠ some seq := fun h => by
            rw [← hq.inverse, hk] at h
            exact hkk (Option.some.inj h).symm
          simp [hkk, this]
      · have hc : compare seq n ≠ .eq := fun hc => hn (Std.LawfulEqOrd.eq_of_compare hc)
        by_cases hkk : k' = k
        · subst hkk
          have : q.order[n]? ≠ some k' := fun h => by
            rw [hq.inverse, hseq] at h
            exact hn (Option.some.inj h)
          simp [hc, this]
        · simp [hc, hkk, hq.inverse]
    · intro n k' h
      rw [Std.TreeMap.getElem?_erase] at h
      split at h
      · cases h
      · exact hq.fresh n k' h
  · exact hq

/-- A removal takes the key out of the list and leaves the order of the others. -/
theorem Coherent.toList_remove (hq : q.Coherent) (k : K) :
    (q.remove k).2.toList = q.toList.erase k := by
  unfold SequenceQueue.remove
  split
  · rename_i seq hseq
    have hk := (hq.inverse seq k).2 hseq
    have hnum : ∀ e ∈ q.order.toList, decide (e.1 ≠ seq) = (e.2 != k) := fun e he => by
      have hmem := Std.TreeMap.mem_toList_iff_getElem?_eq_some.1 (show (e.1, e.2) ∈ _ from he)
      have : e.1 = seq ↔ e.2 = k := by
        constructor
        · intro h
          rw [h, hk] at hmem
          exact (Option.some.inj hmem).symm
        · intro h
          rw [hq.inverse, h, hseq] at hmem
          exact (Option.some.inj hmem).symm
      rw [Bool.eq_iff_iff]
      simp [this]
    rw [hq.nodup_toList.erase_eq_filter, toList_eq, toList_eq, toList_erase,
      List.filter_congr hnum, List.filter_map]
    rfl
  · rename_i hnone
    have : k ∉ q.toList := fun h => by
      obtain ⟨n, hn⟩ := hq.mem_toList_iff.1 h
      rw [hnone] at hn
      cases hn
    exact (List.erase_of_not_mem this).symm

/-- A removal answers whether the key was in the queue. -/
theorem Coherent.remove_fst (hq : q.Coherent) (k : K) :
    (q.remove k).1 = true ↔ k ∈ q.toList := by
  rw [hq.mem_toList_iff]
  unfold SequenceQueue.remove
  split <;> rename_i h <;> simp [h]

/-- A removal takes out the key, and no other. -/
theorem Coherent.mem_remove (hq : q.Coherent) {a : K} :
    a ∈ (q.remove k).2.toList ↔ a ≠ k ∧ a ∈ q.toList := by
  rw [hq.toList_remove, hq.nodup_toList.mem_erase_iff]

/-! ### Putting a key at the back -/

/-- A key goes to the back as if it had not been queued before. -/
theorem pushBack_eq (q : SequenceQueue K) (k : K) :
    q.pushBack k = ⟨(q.remove k).2.order.insert q.next k, q.seqs.insert k q.next, q.next + 1⟩ := by
  unfold pushBack remove KeyMap.insert
  cases h : q.seqs.get? k <;> simp [h]

/-- What is queued besides `k` has a number below the next one. -/
theorem Coherent.fresh_remove (hq : q.Coherent) (k : K) (n : Nat) (k' : K)
    (h : (q.remove k).2.order[n]? = some k') : n < q.next := by
  have := (hq.remove k).fresh n k' h
  unfold SequenceQueue.remove at this
  split at this <;> exact this

/-- A removal takes the number of the key, and no other number. -/
theorem get?_seqs_remove (q : SequenceQueue K) (k k' : K) :
    (q.remove k).2.seqs.get? k' = if k' = k then none else q.seqs.get? k' := by
  unfold SequenceQueue.remove
  split
  · exact KeyMap.get?_erase ..
  · rename_i hnone
    -- the key had no number, so nothing was taken out
    split
    · rename_i hk
      rw [hk, hnone]
    · rfl

/-- Behind the others a key gets a number that none of them has, so both maps still agree. -/
theorem Coherent.pushBack (hq : q.Coherent) (k : K) : (q.pushBack k).Coherent := by
  rw [pushBack_eq]
  constructor
  · intro n k'
    simp only [Std.TreeMap.getElem?_insert, KeyMap.get?_insert]
    by_cases hn : q.next = n
    · subst hn
      have hold : q.seqs.get? k' ≠ some q.next := fun h =>
        Nat.lt_irrefl _ (hq.fresh _ _ ((hq.inverse _ _).2 h))
      by_cases hk : k' = k
      · simp [hk]
      · simp [hk, Ne.symm hk, hold]
    · have hc : compare q.next n ≠ .eq := fun hc => hn (Std.LawfulEqOrd.eq_of_compare hc)
      rw [if_neg hc, (hq.remove k).inverse, get?_seqs_remove]
      by_cases hk : k' = k <;> simp [hk, hn]
  · intro n k' h
    simp only [Std.TreeMap.getElem?_insert] at h ⊢
    split at h
    · rename_i hc
      have := Std.LawfulEqOrd.eq_of_compare hc
      omega
    · have := hq.fresh_remove k n k' h
      omega

/-- A key that is pushed stands at the end, and nowhere else. -/
theorem Coherent.toList_pushBack (hq : q.Coherent) (k : K) :
    (q.pushBack k).toList = q.toList.erase k ++ [k] := by
  rw [pushBack_eq, toList_eq, toList_insert_above (hq.fresh_remove k), List.map_append,
    ← toList_eq, hq.toList_remove]
  rfl

/-- A push brings in the key, and loses none. -/
theorem Coherent.mem_pushBack (hq : q.Coherent) {a : K} :
    a ∈ (q.pushBack k).toList ↔ a = k ∨ a ∈ q.toList := by
  rw [hq.toList_pushBack, List.mem_append, List.mem_singleton, hq.nodup_toList.mem_erase_iff]
  by_cases h : a = k <;> simp [h]

/-- Moving a key to the end keeps both maps in agreement. -/
theorem Coherent.touch (hq : q.Coherent) (k : K) : (q.touch k).2.Coherent := by
  unfold SequenceQueue.touch
  split
  · exact hq.pushBack k
  · exact hq

/-- A touch answers whether the key is in the queue. -/
theorem Coherent.touch_fst (hq : q.Coherent) (k : K) : (q.touch k).1 = true ↔ k ∈ q.toList := by
  rw [← hq.contains_iff]
  unfold SequenceQueue.touch
  split <;> rename_i h <;> simp [h]

/-- A touch moves a key of the queue to the end, and does nothing for any other key. -/
theorem Coherent.toList_touch (hq : q.Coherent) (k : K) :
    (q.touch k).2.toList = if k ∈ q.toList then q.toList.erase k ++ [k] else q.toList := by
  unfold SequenceQueue.touch
  by_cases h : q.contains k
  · rw [if_pos h, if_pos (hq.contains_iff.1 h), hq.toList_pushBack]
  · rw [if_neg h, if_neg fun hk => h (hq.contains_iff.2 hk)]

/-- A touch brings in no key and loses none. -/
theorem Coherent.mem_touch (hq : q.Coherent) {a : K} :
    a ∈ (q.touch k).2.toList ↔ a ∈ q.toList := by
  rw [hq.toList_touch]
  split
  · rename_i hk
    rw [← hq.toList_pushBack, hq.mem_pushBack]
    exact ⟨fun h => h.elim (fun h => h ▸ hk) id, Or.inr⟩
  · rfl

/-! ### Taking the front out -/

/-- The front is taken out as if it had been named. -/
theorem Coherent.popFront_eq (hq : q.Coherent) :
    q.popFront = match q.toList with
      | [] => (none, q)
      | k :: _ => (some k, (q.remove k).2) := by
  unfold SequenceQueue.popFront
  rw [least?_eq_head?]
  have hmap := toList_eq q
  cases h : q.order.toList with
  | nil =>
    rw [h] at hmap
    rw [hmap]
    rfl
  | cons e rest =>
    rw [h] at hmap
    have he : (e.1, e.2) ∈ q.order.toList := by rw [h]; exact List.mem_cons_self
    have hseq := (hq.inverse e.1 e.2).1 (Std.TreeMap.mem_toList_iff_getElem?_eq_some.1 he)
    rw [hmap]
    simp [SequenceQueue.remove, hseq]

/-- What stands in front is popped, and that is to remove it. -/
theorem Coherent.popFront_of_head? (hq : q.Coherent) (h : q.toList.head? = some k) :
    q.popFront = (some k, (q.remove k).2) := by
  obtain ⟨rest, hrest⟩ := List.head?_eq_some_iff.1 h
  rw [hq.popFront_eq, hrest]

/-- From an empty queue nothing is popped. -/
theorem Coherent.popFront_of_nil (hq : q.Coherent) (h : q.toList = []) : q.popFront = (none, q) := by
  rw [hq.popFront_eq, h]

/-- The first key of the list is popped. -/
theorem Coherent.popFront_fst (hq : q.Coherent) : q.popFront.1 = q.toList.head? := by
  rw [hq.popFront_eq]
  cases q.toList <;> rfl

/-- After a pop both maps still agree. -/
theorem Coherent.popFront (hq : q.Coherent) : q.popFront.2.Coherent := by
  rw [hq.popFront_eq]
  cases q.toList with
  | nil => exact hq
  | cons k rest => exact hq.remove k

/-- A pop leaves the rest of the list. -/
theorem Coherent.toList_popFront (hq : q.Coherent) : q.popFront.2.toList = q.toList.tail := by
  rw [hq.popFront_eq]
  cases h : q.toList with
  | nil => exact h
  | cons k rest => rw [List.tail_cons, hq.toList_remove, h, List.erase_cons_head]

end SequenceQueue
end ClusterCache
