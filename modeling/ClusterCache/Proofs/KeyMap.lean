/-
# What a key map lists

The listing of a `KeyMap` comes in an order that means nothing, so it is described up to its order.
A map with a key put in lists that entry and what is left of the others (`toList_insert_perm`), and a
map that holds a key lists its entry and what is left when it is dropped (`toList_perm_of_get?`).
With them a count over a listing is taken apart one entry at a time.  The values alone behave alike
(`toList_append_values_insert`, `toList_append_values_erase`), and values with different keys can always
be filed under them (`exists_values_perm`).
-/

import Mathlib.Data.List.Nodup
import ClusterCache.KeyMap

namespace ClusterCache
namespace KeyMap

variable {K V : Type} [DecidableEq K] [Hashable K] {m : KeyMap K V} {k : K} {v : V}

/-- The value inserted is found. -/
theorem get?_insert_self (m : KeyMap K V) (k : K) (v : V) : (m.insert k v).get? k = some v := by
  rw [get?_insert, if_pos rfl]

/-- An insertion is not noticed at another key. -/
theorem get?_insert_of_ne {a : K} (h : a ≠ k) : (m.insert k v).get? a = m.get? a := by
  rw [get?_insert, if_neg h]

/-- That a key is erased is not noticed at another one. -/
theorem get?_erase_of_ne {a : K} (h : a ≠ k) : (m.erase k).get? a = m.get? a := by
  rw [get?_erase, if_neg h]

/-- No entry is listed twice. -/
theorem nodup_toList (m : KeyMap K V) : m.toList.Nodup := List.Nodup.of_map Prod.fst m.nodup_keys

/-- Two maps with the same lookups list the same entries. -/
theorem toList_perm {m' : KeyMap K V} (h : ∀ k, m.get? k = m'.get? k) :
    m.toList.Perm m'.toList := by
  refine (List.perm_ext_iff_of_nodup m.nodup_toList m'.nodup_toList).2 fun e => ?_
  obtain ⟨k, v⟩ := e
  rw [mem_toList_iff, mem_toList_iff, h]

/-- An entry and the entries under other keys are all there is. -/
theorem toList_perm_of_get? (h : m.get? k = some v) :
    m.toList.Perm ((k, v) :: (m.erase k).toList) := by
  have hk : ∀ v', (k, v') ∉ (m.erase k).toList := fun v' hv => by
    rw [mem_toList_iff, get?_erase, if_pos rfl] at hv
    cases hv
  have hnd := List.nodup_cons.2 ⟨hk v, (m.erase k).nodup_toList⟩
  refine (List.perm_ext_iff_of_nodup m.nodup_toList hnd).2 fun e => ?_
  obtain ⟨k', v'⟩ := e
  rw [List.mem_cons, mem_toList_iff, mem_toList_iff, get?_erase]
  by_cases hkk : k' = k
  · subst hkk
    simp [h, eq_comm]
  · simp [hkk]

/-- An insertion puts its entry in the place of what the key had. -/
theorem toList_insert_perm (m : KeyMap K V) (k : K) (v : V) :
    (m.insert k v).toList.Perm ((k, v) :: (m.erase k).toList) := by
  have hget : (m.insert k v).get? k = some v := by rw [get?_insert, if_pos rfl]
  refine (toList_perm_of_get? hget).trans ?_
  refine List.Perm.cons _ (toList_perm fun k' => ?_)
  rw [get?_erase, get?_erase, get?_insert]
  split <;> rfl

/-- Erasing a key that is not there leaves the entries as they are, up to their order. -/
theorem toList_erase_perm_of_get?_eq_none (h : m.get? k = none) :
    (m.erase k).toList.Perm m.toList := by
  refine toList_perm fun k' => ?_
  rw [get?_erase]
  split
  · rename_i hk
    rw [hk, h]
  · rfl

/-! ### The values -/

/-- The values listed are those that some key has. -/
theorem mem_values_iff : v ∈ m.values ↔ ∃ k, m.get? k = some v := by
  simp only [values, List.mem_map, Prod.exists, mem_toList_iff, exists_eq_right]

/-- The value of a key can be put in front of the others. -/
theorem values_perm_of_get? (h : m.get? k = some v) : m.values.Perm (v :: (m.erase k).values) :=
  (toList_perm_of_get? h).map Prod.snd

/-- An insertion puts its value in the place of the one that the key had. -/
theorem values_insert_perm (m : KeyMap K V) (k : K) (v : V) :
    (m.insert k v).values.Perm (v :: (m.erase k).values) := (toList_insert_perm m k v).map Prod.snd

/-- Erasing a key that is not there leaves the values as they are, up to their order. -/
theorem values_erase_perm_of_get?_eq_none (h : m.get? k = none) :
    (m.erase k).values.Perm m.values := (toList_erase_perm_of_get?_eq_none h).map Prod.snd

/-- What a value put in drives out and what there is then, are what there was and the value. -/
theorem toList_append_values_insert (m : KeyMap K V) (k : K) (v : V) :
    ((m.get? k).toList ++ (m.insert k v).values).Perm (v :: m.values) := by
  have hinsert := m.values_insert_perm k v
  cases h : m.get? k with
  | none => exact hinsert.trans ((values_erase_perm_of_get?_eq_none h).cons v)
  | some old =>
    have hold := values_perm_of_get? h
    exact (hinsert.cons old).trans ((List.Perm.swap v old _).trans (hold.symm.cons v))

/-- What is dropped and what is left are what there was. -/
theorem toList_append_values_erase (m : KeyMap K V) (k : K) :
    ((m.get? k).toList ++ (m.erase k).values).Perm m.values := by
  cases h : m.get? k with
  | none => exact values_erase_perm_of_get?_eq_none h
  | some v => exact (values_perm_of_get? h).symm

/-- Two maps with the same lookups, as far as `f` tells, list the same values. -/
theorem values_map_perm {α : Type} {m m' : KeyMap K V} {f : V → α}
    (h : ∀ k, (m.get? k).map f = (m'.get? k).map f) : (m.values.map f).Perm (m'.values.map f) := by
  have hnodup : ∀ m : KeyMap K V, (m.toList.map fun e => (e.1, f e.2)).Nodup := fun m => by
    refine List.Nodup.of_map Prod.fst ?_
    rw [List.map_map]
    exact m.nodup_keys
  have hmem : ∀ (m : KeyMap K V) (k : K) (a : α),
      (k, a) ∈ (m.toList.map fun e => (e.1, f e.2)) ↔ (m.get? k).map f = some a := fun m k a => by
    simp only [List.mem_map, Prod.exists, Prod.mk.injEq, mem_toList_iff, Option.map_eq_some_iff]
    constructor
    · rintro ⟨_, v, hv, rfl, rfl⟩
      exact ⟨v, hv, rfl⟩
    · rintro ⟨v, hv, rfl⟩
      exact ⟨k, v, hv, rfl, rfl⟩
  have hperm := (List.perm_ext_iff_of_nodup (hnodup m) (hnodup m')).2 fun e => by
    rw [hmem, hmem, h]
  have hvalues : ∀ m : KeyMap K V, (m.toList.map fun e => (e.1, f e.2)).map Prod.snd =
      m.values.map f := fun m => by
    rw [values, List.map_map, List.map_map]
    rfl
  rw [← hvalues, ← hvalues]
  exact hperm.map Prod.snd

/-- Values with different keys can be filed under their keys. -/
theorem exists_values_perm {l : List V} {key : V → K} (h : (l.map key).Nodup) :
    ∃ m : KeyMap K V, m.values.Perm l ∧ ∀ k v, m.get? k = some v → key v = k := by
  induction l with
  | nil => exact ⟨.empty, .refl [], fun k v hv => by cases hv⟩
  | cons a l ih =>
    rw [List.map_cons, List.nodup_cons] at h
    obtain ⟨m, hm, hkey⟩ := ih h.2
    have hnone : m.get? (key a) = none := by
      cases hv : m.get? (key a) with
      | none => rfl
      | some v =>
        have hmem : v ∈ l := hm.mem_iff.1 (mem_values_iff.2 ⟨key a, hv⟩)
        exact absurd (hkey _ v hv ▸ List.mem_map_of_mem hmem) h.1
    have hinsert := m.toList_append_values_insert (key a) a
    rw [hnone] at hinsert
    refine ⟨m.insert (key a) a, hinsert.trans (hm.cons a), fun k v hv => ?_⟩
    rw [get?_insert] at hv
    split at hv
    · rename_i hk
      rw [hk, ← Option.some.inj hv]
    · exact hkey k v hv

/-- There are as many values as entries. -/
@[simp] theorem length_values (m : KeyMap K V) : m.values.length = m.size := List.length_map ..

/-! ### The keys -/

/-- The keys listed are those that are found. -/
theorem mem_keys_iff : k ∈ m.keys ↔ (m.get? k).isSome := by
  simp only [keys, List.mem_map, Prod.exists, exists_and_right, exists_eq_right, mem_toList_iff,
    Option.isSome_iff_exists]

end KeyMap
end ClusterCache
