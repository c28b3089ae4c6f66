/-
# Slots and their index

The keys that may go in any order stand in slots, and an index says in which.  Nobody looks through the
slots for a key: whoever takes one out goes by the index, puts the key of the last slot in its place,
and tells the index of that key.  So everything hangs on the index being *in step* with the slots: it
gives a key a slot exactly if the key stands there (`Sound`).  That alone keeps a key from standing
in two slots (`Sound.slot_inj`), and every operation keeps it (`Sound.push`, `Sound.remove`,
`Sound.pop`).

Seen from its last slot the strategy is a row of keys.  The operations do to the row what their names
say: a new key goes in front (`Sound.row_push`), the first one is the victim (`pop_fst`, `row_pop`), and
a key that is taken out leaves its place to the first one (`Sound.row_remove`).
-/

import Mathlib.Data.List.Nodup
import ClusterCache.Eviction.Unordered

namespace ClusterCache
namespace Unordered

variable {K : Type}

/-! ### Taking out and filling the place -/

/-- Of the last slot nothing is left, and the slot that was emptied holds what stood there. -/
theorem getElem?_swapRemove {slots : Array K} {i : Nat} (hi : i < slots.size) (j : Nat) :
    (swapRemove slots i)[j]? =
      if j + 1 < slots.size then if j = i then slots.back? else slots[j]? else none := by
  have hback : slots.back? = some slots[slots.size - 1] := by
    rw [Array.back?_eq_getElem?, Array.getElem?_eq_getElem]
  have hsize : (slots.setIfInBounds i slots[slots.size - 1]).size = slots.size :=
    Array.size_setIfInBounds
  rw [swapRemove, hback]
  simp only
  rw [Array.getElem?_pop, hsize, Array.getElem?_setIfInBounds]
  by_cases hj : j + 1 < slots.size
  · rw [if_pos (by omega), if_pos hj]
    by_cases hij : i = j
    · rw [if_pos hij, if_pos hi, if_pos hij.symm]
    · rw [if_neg hij, if_neg fun he => hij he.symm]
  · rw [if_neg (by omega), if_neg hj]

variable [DecidableEq K] {slots : Array K} {k a : K} {i j : Nat}

/-- Where a key stands after the key of slot `i` was taken out: the last one stands in that slot, and
the others stand where they stood. -/
theorem getElem?_swapRemove_eq_some_iff
    (hinj : ∀ a (i j : Nat), slots[i]? = some a → slots[j]? = some a → i = j)
    (hk : slots[i]? = some k) : (swapRemove slots i)[j]? = some a ↔
      a ≠ k ∧ if slots.back? = some a then j = i else slots[j]? = some a := by
  have hi : i < slots.size := (Array.getElem?_eq_some_iff.1 hk).1
  rw [getElem?_swapRemove hi, Array.back?_eq_getElem?]
  constructor
  · intro h
    split at h
    · rename_i hj
      split at h
      · rename_i hji
        have hak : a ≠ k := by
          rintro rfl
          have hlast : i = slots.size - 1 := hinj a i _ hk h
          omega
        exact ⟨hak, by rw [if_pos h]; exact hji⟩
      · rename_i hji
        have hak : a ≠ k := by
          rintro rfl
          exact hji (hinj a j i h hk)
        have hback : slots[slots.size - 1]? ≠ some a := fun hb => by
          have hlast : j = slots.size - 1 := hinj a j _ h hb
          omega
        exact ⟨hak, by rw [if_neg hback]; exact h⟩
    · cases h
  · rintro ⟨hak, h⟩
    split at h
    · rename_i hback
      subst h
      have hlast : j ≠ slots.size - 1 := fun he => by
        rw [← he, hk] at hback
        exact hak (Option.some.inj hback).symm
      rw [if_pos (by omega), if_pos rfl, hback]
    · rename_i hback
      have hj : j < slots.size := (Array.getElem?_eq_some_iff.1 h).1
      have hji : j ≠ i := fun he => by
        rw [he, hk] at h
        exact hak (Option.some.inj h).symm
      have hlast : j ≠ slots.size - 1 := fun he => hback (he ▸ h)
      rw [if_pos (by omega), if_neg hji, h]

/-! ### Rows that are vacated -/

/-- Takes a key out of a row and puts the first one in its place. -/
def vacate (k : K) : List K → List K
  | [] => []
  | first :: rest => if first = k then rest else rest.map fun x => if x = k then first else x

variable {keys : List K}

/-- What is left of a row that begins with the key, and of one that does not. -/
theorem vacate_cons (k first : K) (rest : List K) :
    vacate k (first :: rest) =
      if first = k then rest else rest.map fun x => if x = k then first else x := rfl

/-- Of the keys of a row without repetition the one that is taken out is missing, and no other. -/
theorem mem_vacate (hnd : keys.Nodup) (hk : k ∈ keys) :
    a ∈ vacate k keys ↔ a ≠ k ∧ a ∈ keys := by
  cases keys with
  | nil => cases hk
  | cons first rest =>
    obtain ⟨hfirst, hrest⟩ := List.nodup_cons.1 hnd
    rw [vacate_cons]
    by_cases hl : first = k
    · subst hl
      rw [if_pos rfl, List.mem_cons]
      constructor
      · intro ha
        have hne : a ≠ first := fun he => hfirst (he ▸ ha)
        exact ⟨hne, Or.inr ha⟩
      · rintro ⟨hne, rfl | ha⟩
        · exact absurd rfl hne
        · exact ha
    · have hkr : k ∈ rest := (List.mem_cons.1 hk).resolve_left (Ne.symm hl)
      rw [if_neg hl, List.mem_map, List.mem_cons]
      constructor
      · rintro ⟨x, hx, rfl⟩
        by_cases hxk : x = k
        · rw [if_pos hxk]
          exact ⟨hl, Or.inl rfl⟩
        · rw [if_neg hxk]
          exact ⟨hxk, Or.inr hx⟩
      · rintro ⟨hne, rfl | ha⟩
        · -- the first key stands where the key stood that was taken out
          exact ⟨k, hkr, if_pos rfl⟩
        · exact ⟨a, ha, if_neg hne⟩

/-- Writing over the only slot of a key is writing over the key. -/
theorem set_eq_map (hnd : keys.Nodup) (hk : keys[i]? = some k) (b : K) :
    keys.set i b = keys.map fun x => if x = k then b else x := by
  refine List.ext_getElem? fun j => ?_
  rw [List.getElem?_set, List.getElem?_map]
  by_cases hij : i = j
  · subst hij
    have hi : i < keys.length := (List.getElem?_eq_some_iff.1 hk).1
    rw [if_pos rfl, if_pos hi, hk, Option.map_some, if_pos rfl]
  · rw [if_neg hij]
    cases hj : keys[j]? with
    | none => rfl
    | some x =>
      have hne : x ≠ k := fun he => hij <| by
        rw [he] at hj
        exact (List.getElem?_inj (List.getElem?_eq_some_iff.1 hk).1 hnd).1 (hk.trans hj.symm)
      rw [Option.map_some, if_neg hne]

/-- **The last one in the place of a key** is the first one of the row in its place. -/
theorem reverse_swapRemove (hnd : slots.toList.Nodup) (hk : slots[i]? = some k) :
    (swapRemove slots i).toList.reverse = vacate k slots.toList.reverse := by
  have hi : i < slots.size := (Array.getElem?_eq_some_iff.1 hk).1
  have hne : slots.size ≠ 0 := Nat.ne_of_gt (Nat.zero_lt_of_lt hi)
  obtain ⟨rest, last, rfl⟩ := Array.eq_push_of_size_ne_zero hne
  have hrest : rest.toList.Nodup := by
    rw [Array.toList_push] at hnd
    exact hnd.of_append_left
  rw [swapRemove, Array.back?_push]
  simp only [Array.toList_pop, Array.toList_setIfInBounds, Array.toList_push, List.reverse_concat,
    vacate_cons]
  rw [Array.size_push] at hi
  by_cases hlast : i = rest.size
  · subst hlast
    have hkl : last = k := by simpa using hk
    rw [if_pos hkl, List.set_append_right _ _ (by simp)]
    simp
  · have hlt : i < rest.toList.length := by rw [Array.length_toList]; omega
    have hk' : rest.toList[i]? = some k := by
      rw [Array.getElem?_push, if_neg hlast] at hk
      rwa [Array.getElem?_toList]
    have hkl : last ≠ k := by
      rintro rfl
      rw [Array.toList_push] at hnd
      exact (List.nodup_append.1 hnd).2.2 last (List.mem_of_getElem? hk') last
        (List.mem_singleton_self last) rfl
    rw [if_neg hkl, List.set_append_left _ _ hlt, List.dropLast_concat, set_eq_map hrest hk',
      List.map_reverse]

/-! ### The index in step with the slots -/

variable [Hashable K] {s : Unordered K}

/-- The index gives a key a slot exactly if the key stands there. -/
structure Sound (s : Unordered K) : Prop where
  index_iff : ∀ k i, s.index.get? k = some i ↔ s.slots[i]? = some k

/-- The keys, the one that goes next in front. -/
def row (s : Unordered K) : List K := s.slots.toList.reverse

/-- There are as many keys in the row as in the slots. -/
theorem size_eq_length_row (s : Unordered K) : s.size = s.row.length := by
  rw [row, List.length_reverse, Array.length_toList, size]

/-- A key is in the row if it stands in some slot. -/
theorem mem_row_iff : k ∈ s.row ↔ ∃ i : Nat, s.slots[i]? = some k := by
  rw [row, List.mem_reverse, List.mem_iff_getElem?]
  simp only [Array.getElem?_toList]

namespace Sound

/-- **No key stands in two slots**, since the index gives it only one. -/
theorem slot_inj (hs : s.Sound) (hi : s.slots[i]? = some k) (hj : s.slots[j]? = some k) :
    i = j := by
  have hslot : s.index.get? k = some i := (hs.index_iff k i).2 hi
  have hslot' : s.index.get? k = some j := (hs.index_iff k j).2 hj
  exact Option.some.inj (hslot.symm.trans hslot')

/-- No key is twice in the row. -/
theorem nodup_row (hs : s.Sound) : s.row.Nodup := by
  have hslots : s.slots.toList.Nodup := by
    rw [List.nodup_iff_injective_get]
    intro i j hij
    have hi : s.slots[i.1]? = some (s.slots.toList.get i) := by
      rw [← Array.getElem?_toList, List.getElem?_eq_getElem i.2, List.get_eq_getElem]
    have hj : s.slots[j.1]? = some (s.slots.toList.get i) := by
      rw [hij, ← Array.getElem?_toList, List.getElem?_eq_getElem j.2, List.get_eq_getElem]
    exact Fin.ext (hs.slot_inj hi hj)
  exact List.nodup_reverse.2 hslots

/-- The keys of the row are those that the index finds. -/
theorem contains_iff (hs : s.Sound) (k : K) : s.index.contains k = true ↔ k ∈ s.row := by
  rw [KeyMap.contains, Option.isSome_iff_exists, mem_row_iff]
  exact exists_congr fun i => hs.index_iff k i

/-- The index finds no key that is not in the row. -/
theorem get?_eq_none_iff (hs : s.Sound) (k : K) : s.index.get? k = none ↔ k ∉ s.row := by
  rw [← hs.contains_iff, KeyMap.contains, Option.not_isSome_iff_eq_none]

/-- A slot that the index gives is there. -/
theorem lt_size (hs : s.Sound) (hk : s.index.get? k = some i) : i < s.slots.size := by
  have hslot : s.slots[i]? = some k := (hs.index_iff k i).1 hk
  exact (Array.getElem?_eq_some_iff.1 hslot).1

end Sound

/-- Without keys there is nothing to be out of step. -/
theorem sound_init : (init : Unordered K).Sound :=
  ⟨fun _ _ => iff_of_false nofun nofun⟩

/-! ### A key comes in -/

/-- The index is told of the slot behind the others. -/
theorem Sound.push (hs : s.Sound) (k : K) : (s.push k).Sound := by
  unfold Unordered.push
  split
  · exact hs
  · rename_i hnew
    refine ⟨fun a j => ?_⟩
    have hout : ∀ j, s.slots[j]? ≠ some k := fun j hj =>
      hnew ((hs.contains_iff k).2 (mem_row_iff.2 ⟨j, hj⟩))
    rw [KeyMap.get?_insert, Array.getElem?_push]
    by_cases ha : a = k
    · subst ha
      by_cases hj : j = s.slots.size
      · simp [hj]
      · have hold : s.slots[j]? ≠ some a := hout j
        simp [hj, hold, Ne.symm hj]
    · by_cases hj : j = s.slots.size
      · have hend : s.slots[s.slots.size]? = none := Array.getElem?_eq_none (Nat.le_refl _)
        have hnone : s.index.get? a ≠ some s.slots.size := fun h => by
          rw [hs.index_iff, hend] at h
          cases h
        simp [hj, ha, hnone, Ne.symm ha]
      · rw [if_neg ha, if_neg hj, hs.index_iff]

/-- A new key goes in front of the row. -/
theorem Sound.row_push (hs : s.Sound) (k : K) :
    (s.push k).row = if k ∈ s.row then s.row else k :: s.row := by
  unfold Unordered.push
  by_cases hk : k ∈ s.row
  · rw [if_pos ((hs.contains_iff k).2 hk), if_pos hk]
  · rw [if_neg (mt (hs.contains_iff k).1 hk), if_neg hk, row, Array.toList_push, List.reverse_concat]
    rfl

/-! ### The last one goes -/

/-- The victim is the first key of the row. -/
theorem pop_fst (s : Unordered K) : s.pop.1 = s.row.head? := by
  have hhead : s.row.head? = s.slots.back? := by
    rw [row, List.head?_reverse, Array.getLast?_toList]
  unfold pop
  rw [hhead]
  split <;> rename_i h <;> exact h.symm

/-- The other keys stay in the row. -/
theorem row_pop (s : Unordered K) : s.pop.2.row = s.row.tail := by
  unfold pop
  split
  · rename_i hback
    have hempty : s.slots = #[] := Array.back?_eq_none_iff.1 hback
    rw [row, hempty]
    rfl
  · rw [row, row, Array.toList_pop, List.tail_reverse]

/-- The index forgets the victim, and no other key stood in the last slot. -/
theorem Sound.pop (hs : s.Sound) : s.pop.2.Sound := by
  unfold Unordered.pop
  split
  · exact hs
  · rename_i last hback
    rw [Array.back?_eq_getElem?] at hback
    refine ⟨fun a j => ?_⟩
    show (s.index.erase last).get? a = some j ↔ s.slots.pop[j]? = some a
    rw [KeyMap.get?_erase, Array.getElem?_pop]
    by_cases ha : a = last
    · subst ha
      rw [if_pos rfl]
      refine iff_of_false nofun fun h => ?_
      split at h
      · rename_i hj
        have hlast : j = s.slots.size - 1 := hs.slot_inj h hback
        omega
      · cases h
    · rw [if_neg ha, hs.index_iff]
      by_cases hj : j < s.slots.size - 1
      · rw [if_pos hj]
      · rw [if_neg hj]
        refine iff_of_false (fun h => ha ?_) nofun
        have hlt : j < s.slots.size := (Array.getElem?_eq_some_iff.1 h).1
        have hlast : j = s.slots.size - 1 := by omega
        rw [hlast, hback] at h
        exact (Option.some.inj h).symm

/-! ### A key is taken out -/

/-- **The index stays in step with the slots when a key is taken out**: it forgets that key, and the
one that takes its place is found where it then stands. -/
theorem Sound.remove (hs : s.Sound) (k : K) : (s.remove k).Sound := by
  unfold Unordered.remove
  split
  · exact hs
  · rename_i i hk
    have hi : i < s.slots.size := hs.lt_size hk
    have hslot : s.slots[i]? = some k := (hs.index_iff k i).1 hk
    have hwhere : ∀ a j, (swapRemove s.slots i)[j]? = some a ↔
        a ≠ k ∧ if s.slots.back? = some a then j = i else s.slots[j]? = some a := fun a j =>
      getElem?_swapRemove_eq_some_iff (fun _ _ _ => hs.slot_inj) hslot
    simp only
    split
    · -- `k` stood in the last slot, and nothing takes its place
      rename_i hmoved
      have hback : s.slots.back? = some k := by
        obtain ⟨last, hlast⟩ : ∃ last, s.slots.back? = some last :=
          ⟨_, Array.back?_eq_getElem?.trans (Array.getElem?_eq_getElem (by omega))⟩
        by_contra hne
        have hstands := (hwhere last i).2 ⟨fun he => hne (he ▸ hlast), by rw [if_pos hlast]⟩
        rw [hmoved] at hstands
        cases hstands
      refine ⟨fun a j => ?_⟩
      show (s.index.erase k).get? a = some j ↔ (swapRemove s.slots i)[j]? = some a
      rw [KeyMap.get?_erase, hwhere, hback]
      by_cases ha : a = k
      · simp [ha]
      · simp [ha, Ne.symm ha, hs.index_iff]
    · rename_i moved hmoved
      obtain ⟨hne, hstands⟩ := (hwhere moved i).1 hmoved
      have hback : s.slots.back? = some moved := by
        by_contra hno
        rw [if_neg hno, hslot] at hstands
        exact hne (Option.some.inj hstands).symm
      refine ⟨fun a j => ?_⟩
      show ((s.index.erase k).insert moved i).get? a = some j ↔ (swapRemove s.slots i)[j]? = some a
      rw [KeyMap.get?_insert, KeyMap.get?_erase, hwhere, hback]
      by_cases ha : a = moved
      · simp [ha, hne, eq_comm]
      · by_cases hak : a = k
        · simp [hak, Ne.symm hne]
        · simp [ha, hak, Ne.symm ha, hs.index_iff]

/-- Of keys 0 to 5 the second one leaves its slot to the last one, and the index knows. -/
example :
    let s := ([0, 1, 2, 3, 4, 5].foldl push (init : Unordered Nat)).remove 1
    s.slots = #[0, 5, 2, 3, 4] ∧ s.index.get? 5 = some 1 ∧ s.index.get? 1 = none := by
  decide +kernel

/-- **A key that is taken out leaves its place in the row to the first one.** -/
theorem Sound.row_remove (hs : s.Sound) (k : K) :
    (s.remove k).row = if k ∈ s.row then vacate k s.row else s.row := by
  unfold Unordered.remove
  split
  · rename_i hk
    rw [if_neg ((hs.get?_eq_none_iff k).1 hk)]
  · rename_i i hk
    have hslot : s.slots[i]? = some k := (hs.index_iff k i).1 hk
    have hmem : k ∈ s.row := mem_row_iff.2 ⟨i, hslot⟩
    have hslots : s.slots.toList.Nodup := List.nodup_reverse.1 hs.nodup_row
    have hrow : (swapRemove s.slots i).toList.reverse = vacate k s.row :=
      reverse_swapRemove hslots hslot
    rw [if_pos hmem, ← hrow, row]
    simp only
    split <;> rfl

/-! ### The keys of the row -/

/-- The keys of the row after a push are those before, and the new one. -/
theorem Sound.mem_push (hs : s.Sound) : a ∈ (s.push k).row ↔ a = k ∨ a ∈ s.row := by
  rw [hs.row_push]
  split
  · rename_i hk
    exact ⟨Or.inr, fun ha => ha.elim (fun he => he ▸ hk) id⟩
  · exact List.mem_cons

/-- The keys of the row after a removal are those before, without the one that was taken out. -/
theorem Sound.mem_remove (hs : s.Sound) : a ∈ (s.remove k).row ↔ a ≠ k ∧ a ∈ s.row := by
  rw [hs.row_remove]
  split
  · rename_i hk
    exact mem_vacate hs.nodup_row hk
  · rename_i hk
    have hne : a ∈ s.row → a ≠ k := fun ha he => hk (he ▸ ha)
    exact ⟨fun ha => ⟨hne ha, ha⟩, And.right⟩

/-- The keys of the row after a victim was named are those before, without the victim. -/
theorem Sound.mem_pop (hs : s.Sound) : a ∈ s.pop.2.row ↔ s.pop.1 ≠ some a ∧ a ∈ s.row := by
  rw [row_pop, pop_fst]
  have hnd : s.row.Nodup := hs.nodup_row
  cases h : s.row with
  | nil => simp
  | cons first rest =>
    rw [h, List.nodup_cons] at hnd
    by_cases hk : first = a
    · subst hk
      simp [hnd.1]
    · simp [hk, Ne.symm hk]

end Unordered
end ClusterCache
