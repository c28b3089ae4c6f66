/-
# Queues with numbers of 64 bits

The numbers that a `SequenceQueue` hands out have no bound.  A `WordQueue` keeps them in words of 64
bits, in which the number after the last one is zero again.  It also goes about two things in another
way: a key that is touched is moved by its entry, so the key that goes to the back is the one that
stands under the old number; and the keys are counted by the map from keys to numbers.

None of this shows as long as the words suffice.  The two keep the same entries under the same numbers
(`WordQueue.Tracks`), and every operation keeps them so and answers the same on both, if there is a
word for the number that it hands out.
-/

import ClusterCache.Proofs.Eviction.SequenceQueue
import ClusterCache.Proofs.KeyMap

namespace ClusterCache

/-- A queue of distinct keys whose numbers are words. -/
structure WordQueue (K : Type) [DecidableEq K] [Hashable K] where
  /-- The keys by their numbers, least number first. -/
  order : Std.TreeMap UInt64 K
  /-- The number of each key. -/
  seqs : KeyMap K UInt64
  /-- The next number to hand out. -/
  next : UInt64

namespace WordQueue

variable {K : Type} [DecidableEq K] [Hashable K]

/-- The queue without keys. -/
def empty : WordQueue K := ⟨∅, .empty, 0⟩

/-- The keys from front to back. -/
def toList (w : WordQueue K) : List K := w.order.toList.map Prod.snd

/-- The number of keys. -/
def size (w : WordQueue K) : Nat := w.seqs.size

/-- The key at the front. -/
def front? (w : WordQueue K) : Option K := w.order.toList.head?.map Prod.snd

/-- Whether a key is queued. -/
def contains (w : WordQueue K) (k : K) : Bool := w.seqs.contains k

/-- Forgets all keys, but not which numbers were handed out. -/
def clear (w : WordQueue K) : WordQueue K := ⟨∅, .empty, w.next⟩

/-- Puts a key at the back; one that is already queued moves there. -/
def pushBack (w : WordQueue K) (k : K) : WordQueue K :=
  let (old?, seqs) := w.seqs.exchange k w.next
  let order := match old? with
    | some old => w.order.erase old
    | none => w.order
  { order := order.insert w.next k, seqs, next := w.next + 1 }

/-- Moves the entry of a queued key to the back; tells whether there is one. -/
def touch (w : WordQueue K) (k : K) : Bool × WordQueue K :=
  match w.seqs.get? k with
  | none => (false, w)
  | some old =>
    let order := match w.order[old]? with
      | some queued => (w.order.erase old).insert w.next queued
      | none => w.order
    (true, { order, seqs := w.seqs.insert k w.next, next := w.next + 1 })

/-- Takes a key out wherever it stands; tells whether it was queued. -/
def remove (w : WordQueue K) (k : K) : Bool × WordQueue K :=
  match w.seqs.get? k with
  | some seq => (true, { w with order := w.order.erase seq, seqs := w.seqs.erase k })
  | none => (false, w)

/-- Takes out the key at the front. -/
def popFront (w : WordQueue K) : Option K × WordQueue K :=
  match w.order.toList.head? with
  | some (seq, k) => (some k, { w with order := w.order.erase seq, seqs := w.seqs.erase k })
  | none => (none, w)

/-! ### The same entries under the same numbers -/

section Maps

variable {order : Std.TreeMap UInt64 K} {order' : Std.TreeMap Nat K} {seqs : KeyMap K UInt64}
  {seqs' : KeyMap K Nat}

/-- A map by words keeps the entries of a map by numbers. -/
def SameEntries (order : Std.TreeMap UInt64 K) (order' : Std.TreeMap Nat K) : Prop :=
  ∀ n : UInt64, order[n]? = order'[n.toNat]?

/-- A map to words keeps the entries of a map to numbers. -/
def SameNumbers (seqs : KeyMap K UInt64) (seqs' : KeyMap K Nat) : Prop :=
  ∀ k, (seqs.get? k).map UInt64.toNat = seqs'.get? k

/-- Words are the same key of a map exactly if their numbers are. -/
theorem compare_toNat_eq_iff (n m : UInt64) : compare n.toNat m.toNat = .eq ↔ compare n m = .eq := by
  rw [Nat.compare_eq_eq, Std.compare_eq_iff_eq, UInt64.toNat_inj]

omit [DecidableEq K] [Hashable K] in
/-- The same entry is inserted on both sides. -/
theorem SameEntries.insert (h : SameEntries order order') (n : UInt64) (k : K) :
    SameEntries (order.insert n k) (order'.insert n.toNat k) := by
  intro m
  simp only [Std.TreeMap.getElem?_insert, compare_toNat_eq_iff, h m]

omit [DecidableEq K] [Hashable K] in
/-- The same number is erased on both sides. -/
theorem SameEntries.erase (h : SameEntries order order') (n : UInt64) :
    SameEntries (order.erase n) (order'.erase n.toNat) := by
  intro m
  simp only [Std.TreeMap.getElem?_erase, compare_toNat_eq_iff, h m]

/-- A key gets the same number on both sides. -/
theorem SameNumbers.insert (h : SameNumbers seqs seqs') (k : K) (n : UInt64) :
    SameNumbers (seqs.insert k n) (seqs'.insert k n.toNat) := by
  intro k'
  rw [KeyMap.get?_insert, KeyMap.get?_insert]
  split
  · rfl
  · exact h k'

/-- A key loses its number on both sides. -/
theorem SameNumbers.erase (h : SameNumbers seqs seqs') (k : K) :
    SameNumbers (seqs.erase k) (seqs'.erase k) := by
  intro k'
  rw [KeyMap.get?_erase, KeyMap.get?_erase]
  split
  · rfl
  · exact h k'

end Maps

/-- A word queue keeps the entries of a queue, with words for its numbers. -/
structure Tracks (w : WordQueue K) (q : SequenceQueue K) : Prop where
  order : SameEntries w.order q.order
  seqs : SameNumbers w.seqs q.seqs
  next : w.next.toNat = q.next

/-- An empty queue of words tracks an empty queue. -/
theorem tracks_empty : (empty : WordQueue K).Tracks .empty where
  order n := by simp [empty, SequenceQueue.empty]
  seqs k := rfl
  next := rfl

namespace Tracks

variable {w : WordQueue K} {q : SequenceQueue K} {k : K} {n : UInt64}

/-- A queue of words that is cleared tracks one that is cleared. -/
theorem clear (h : w.Tracks q) : w.clear.Tracks q.clear where
  order n := by simp [WordQueue.clear, SequenceQueue.clear]
  seqs k := rfl
  next := h.next

/-- A key without a word has no number. -/
theorem seqs_of_none (h : w.Tracks q) (hk : w.seqs.get? k = none) : q.seqs.get? k = none := by
  rw [← h.seqs, hk]
  rfl

/-- The number of a key is that of its word. -/
theorem seqs_of_some (h : w.Tracks q) (hk : w.seqs.get? k = some n) :
    q.seqs.get? k = some n.toNat := by
  rw [← h.seqs, hk]
  rfl

/-- **A key goes to the back of both**, if there is a word for its number. -/
theorem pushBack (h : w.Tracks q) (hroom : q.next + 1 < UInt64.size) (k : K) :
    (w.pushBack k).Tracks (q.pushBack k) := by
  have hnext : (w.next + 1).toNat = q.next + 1 := by
    rw [UInt64.toNat_add, h.next]
    exact Nat.mod_eq_of_lt hroom
  have hseqs := h.seqs.insert k w.next
  cases hk : w.seqs.get? k with
  | none =>
    have horder := h.order.insert w.next k
    have hw : w.pushBack k = ⟨w.order.insert w.next k, w.seqs.insert k w.next, w.next + 1⟩ := by
      simp [WordQueue.pushBack, hk]
    have hq : q.pushBack k = ⟨q.order.insert q.next k, q.seqs.insert k q.next, q.next + 1⟩ := by
      simp [SequenceQueue.pushBack, h.seqs_of_none hk]
    rw [hw, hq]
    rw [h.next] at hseqs horder
    exact ⟨horder, hseqs, hnext⟩
  | some old =>
    have horder := (h.order.erase old).insert w.next k
    have hw : w.pushBack k =
        ⟨(w.order.erase old).insert w.next k, w.seqs.insert k w.next, w.next + 1⟩ := by
      simp [WordQueue.pushBack, hk]
    have hq : q.pushBack k =
        ⟨(q.order.erase old.toNat).insert q.next k, q.seqs.insert k q.next, q.next + 1⟩ := by
      simp [SequenceQueue.pushBack, h.seqs_of_some hk]
    rw [hw, hq]
    rw [h.next] at hseqs horder
    exact ⟨horder, hseqs, hnext⟩

/-- The entry of a queued key is moved as the key is put at the back. -/
theorem touch_eq (h : w.Tracks q) (hq : q.Coherent) (k : K) :
    w.touch k = if q.contains k then (true, w.pushBack k) else (false, w) := by
  unfold WordQueue.touch SequenceQueue.contains KeyMap.contains
  cases hk : w.seqs.get? k with
  | none => simp [h.seqs_of_none hk]
  | some old =>
    -- Under the old number stands the key itself.
    have hentry : w.order[old]? = some k := by
      rw [h.order]
      exact (hq.inverse _ _).2 (h.seqs_of_some hk)
    simp [h.seqs_of_some hk, hentry, WordQueue.pushBack, hk]

/-- **A touch does the same to both.** -/
theorem touch (h : w.Tracks q) (hq : q.Coherent) (hroom : q.next + 1 < UInt64.size) (k : K) :
    (w.touch k).1 = (q.touch k).1 ∧ (w.touch k).2.Tracks (q.touch k).2 := by
  rw [h.touch_eq hq, SequenceQueue.touch]
  split
  · exact ⟨rfl, h.pushBack hroom k⟩
  · exact ⟨rfl, h⟩

/-- **A key is taken out of both.** -/
theorem remove (h : w.Tracks q) (k : K) :
    (w.remove k).1 = (q.remove k).1 ∧ (w.remove k).2.Tracks (q.remove k).2 := by
  unfold WordQueue.remove SequenceQueue.remove
  cases hk : w.seqs.get? k with
  | none =>
    rw [h.seqs_of_none hk]
    exact ⟨rfl, h⟩
  | some n =>
    rw [h.seqs_of_some hk]
    exact ⟨rfl, h.order.erase n, h.seqs.erase k, h.next⟩

/-- Both list the same entries in the same order. -/
theorem map_toList (h : w.Tracks q) (hq : q.Coherent) :
    w.order.toList.map (fun e => (e.1.toNat, e.2)) = q.order.toList := by
  refine SequenceQueue.eq_of_mem_iff ?_ (SequenceQueue.sorted_toList q.order) fun n k => ?_
  · have hkeys := w.order.ordered_keys_toList
    rw [List.pairwise_map]
    exact hkeys.imp fun hlt => UInt64.lt_iff_toNat_lt.1 (Std.compare_eq_lt.1 hlt)
  · rw [Std.TreeMap.mem_toList_iff_getElem?_eq_some]
    simp only [List.mem_map, Prod.exists, Prod.mk.injEq,
      Std.TreeMap.mem_toList_iff_getElem?_eq_some]
    constructor
    · rintro ⟨m, k', hm, rfl, rfl⟩
      rwa [← h.order]
    · intro hk
      -- The number is that of a key, and so it is the number of a word.
      have hseq := (hq.inverse n k).1 hk
      rw [← h.seqs] at hseq
      obtain ⟨m, -, rfl⟩ := Option.map_eq_some_iff.1 hseq
      exact ⟨m, k, (h.order m).trans hk, rfl, rfl⟩

/-- Both queues list the same keys in the same order. -/
theorem toList_eq (h : w.Tracks q) (hq : q.Coherent) : w.toList = q.toList := by
  rw [WordQueue.toList, SequenceQueue.toList_eq, ← h.map_toList hq, List.map_map]
  rfl

/-- **The front is taken out of both.** -/
theorem popFront (h : w.Tracks q) (hq : q.Coherent) :
    w.popFront.1 = q.popFront.1 ∧ w.popFront.2.Tracks q.popFront.2 := by
  have hlist := h.map_toList hq
  unfold WordQueue.popFront SequenceQueue.popFront
  rw [SequenceQueue.least?_eq_head?, ← hlist]
  cases w.order.toList with
  | nil => exact ⟨rfl, h⟩
  | cons e rest => exact ⟨rfl, h.order.erase e.1, h.seqs.erase e.2, h.next⟩

/-! ### What is read -/

/-- The front of a queue of words is the first of the list. -/
theorem front?_eq (h : w.Tracks q) (hq : q.Coherent) : w.front? = q.toList.head? := by
  rw [← h.toList_eq hq, WordQueue.toList, WordQueue.front?, List.head?_map]

/-- Both queues know the same keys. -/
theorem isSome_seqs (h : w.Tracks q) (k : K) : (w.seqs.get? k).isSome = (q.seqs.get? k).isSome := by
  rw [← h.seqs, Option.isSome_map]

/-- A queue of words contains the keys of the list. -/
theorem contains_iff (h : w.Tracks q) (hq : q.Coherent) : w.contains k = true ↔ k ∈ q.toList := by
  rw [← hq.contains_iff, WordQueue.contains, SequenceQueue.contains, KeyMap.contains,
    KeyMap.contains, h.isSome_seqs]

/-- The map from keys to numbers has as many keys as are queued. -/
theorem size_eq (h : w.Tracks q) (hq : q.Coherent) : w.size = q.toList.length := by
  have hperm : w.seqs.keys.Perm q.toList :=
    (List.perm_ext_iff_of_nodup w.seqs.nodup_keys hq.nodup_toList).2 fun k => by
      rw [KeyMap.mem_keys_iff, h.isSome_seqs, ← hq.contains_iff]
      rfl
  rw [← hperm.length_eq, KeyMap.keys, List.length_map]
  rfl

/-- The maps of a word queue fit each other as those of the queue do. -/
theorem inverse (h : w.Tracks q) (hq : q.Coherent) (n : UInt64) (k : K) :
    w.order[n]? = some k ↔ w.seqs.get? k = some n := by
  rw [h.order, hq.inverse, ← h.seqs, Option.map_eq_some_iff]
  constructor
  · rintro ⟨m, hm, hmn⟩
    rwa [← UInt64.toNat_inj.1 hmn]
  · exact fun hn => ⟨n, hn, rfl⟩

/-- Every word in use is below the next one. -/
theorem fresh (h : w.Tracks q) (hq : q.Coherent) (hk : w.order[n]? = some k) : n < w.next := by
  rw [UInt64.lt_iff_toNat_lt, h.next]
  exact hq.fresh _ _ ((h.order n).symm.trans hk)

end Tracks
end WordQueue
end ClusterCache
