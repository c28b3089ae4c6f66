/-
# What a table of records lists, and what a key finds in it

What a table lists comes in an order that means nothing, so it is described up to its order: what a
record put in drives out and what there is then are what there was and that record
(`toList_append_records_insert`), and likewise for a record that is dropped
(`toList_append_records_erase`).

A table is *tidy* for a hash if its records carry the hashes of their keys (`Tidy`).  In such a table a
search with a key and its hash finds the record with the key, however many other keys have that hash
(`Tidy.find?_eq_some_iff`).  So what keys find tells what there is, whatever the hash: tables in
which keys find the same, each by a hash of its own, list the same (`Tidy.map_perm`).
-/

import ClusterCache.Cache.RecordTable
import ClusterCache.Proofs.KeyMap

namespace ClusterCache
namespace RecordTable

variable {K V : Type} [DecidableEq K] {t t' : RecordTable K V} {r : Record K V} {h : UInt64} {k : K}
  {hash hash' : K → UInt64}

/-! ### What is listed -/

/-- A table lists as many records as it has. -/
theorem length_records (t : RecordTable K V) : t.records.length = t.size := t.entries.length_values

/-- What a record put in drives out and what there is then, are what there was and the record. -/
theorem toList_append_records_insert (t : RecordTable K V) (r : Record K V) :
    ((t.find? r.hash r.key).toList ++ (t.insert r).records).Perm (r :: t.records) :=
  t.entries.toList_append_values_insert r.hashed r

/-- What is dropped and what is left are what there was. -/
theorem toList_append_records_erase (t : RecordTable K V) (h : UInt64) (k : K) :
    ((t.find? h k).toList ++ (t.erase h k).records).Perm t.records :=
  t.entries.toList_append_values_erase ⟨h, k⟩

/-- A record that is found and what is left without it are all there is. -/
theorem records_perm_of_find? (hr : t.find? h k = some r) :
    t.records.Perm (r :: (t.erase h k).records) := KeyMap.values_perm_of_get? hr

/-- Whatever is listed after a record was dropped was listed before. -/
theorem mem_records_of_erase (hr : r ∈ (t.erase h k).records) : r ∈ t.records := by
  have hperm := t.toList_append_records_erase h k
  exact hperm.subset (List.mem_append_right _ hr)

/-- Whatever is listed after a record was put in is that record or was listed before. -/
theorem mem_records_of_insert {r' : Record K V} (hr : r' ∈ (t.insert r).records) :
    r' = r ∨ r' ∈ t.records := by
  have hperm := t.toList_append_records_insert r
  exact List.mem_cons.1 (hperm.subset (List.mem_append_right _ hr))

/-- No hash and key are listed twice. -/
theorem nodup_hashed (t : RecordTable K V) : (t.records.map Record.hashed).Nodup := by
  have hkeys : t.records.map Record.hashed = t.entries.keys := by
    rw [records, KeyMap.values, KeyMap.keys, List.map_map]
    exact List.map_congr_left fun e he => t.filed e.1 e.2 (KeyMap.mem_toList_iff.1 he)
  rw [hkeys]
  exact t.entries.nodup_keys

/-! ### What a key finds by its hash -/

/-- After a record was put in under the hash of its key, its key finds it, and the other keys what they
found. -/
theorem find?_insert_hash (t : RecordTable K V) (hr : r.hash = hash r.key) (k : K) :
    (t.insert r).find? (hash k) k = if k = r.key then some r else t.find? (hash k) k := by
  rw [find?_insert]
  by_cases hk : k = r.key
  · rw [if_pos ⟨hk ▸ hr.symm, hk⟩, if_pos hk]
  · rw [if_neg fun hboth => hk hboth.2, if_neg hk]

/-- After a key was dropped it finds nothing, and the other keys what they found. -/
theorem find?_erase_hash (t : RecordTable K V) (hash : K → UInt64) (k a : K) :
    (t.erase (hash k) k).find? (hash a) a = if a = k then none else t.find? (hash a) a := by
  rw [find?_erase]
  by_cases ha : a = k
  · rw [if_pos ⟨congrArg hash ha, ha⟩, if_pos ha]
  · rw [if_neg fun hboth => ha hboth.2, if_neg ha]

/-- Every record carries the hash of its key. -/
def Tidy (hash : K → UInt64) (t : RecordTable K V) : Prop := ∀ r ∈ t.records, r.hash = hash r.key

/-- The table without records is tidy. -/
theorem tidy_empty (hash : K → UInt64) : (empty : RecordTable K V).Tidy hash :=
  fun _ hr => nomatch hr

namespace Tidy

/-- A table stays tidy if a record with the hash of its key is put in. -/
theorem insert (ht : t.Tidy hash) (hr : r.hash = hash r.key) : (t.insert r).Tidy hash := by
  intro r' hr'
  rcases mem_records_of_insert hr' with rfl | hbefore
  · exact hr
  · exact ht r' hbefore

/-- A table stays tidy if a record is dropped. -/
theorem erase (ht : t.Tidy hash) (h : UInt64) (k : K) : (t.erase h k).Tidy hash :=
  fun r hr => ht r (mem_records_of_erase hr)

/-- **A key finds the record that has it**, whatever other keys have the same hash. -/
theorem find?_eq_some_iff (ht : t.Tidy hash) :
    t.find? (hash k) k = some r ↔ r ∈ t.records ∧ r.key = k := by
  constructor
  · intro hr
    obtain ⟨hhash, hkey⟩ := of_find? hr
    rw [← hhash, ← hkey] at hr
    exact ⟨mem_records_iff.2 hr, hkey⟩
  · rintro ⟨hr, rfl⟩
    have hfound := mem_records_iff.1 hr
    rwa [ht r hr] at hfound

/-- No key is listed twice. -/
theorem nodup_key (ht : t.Tidy hash) : (t.records.map Record.key).Nodup := by
  have hhashed : (t.records.map Record.key).map (fun k => (⟨hash k, k⟩ : Hashed K)) =
      t.records.map Record.hashed := by
    rw [List.map_map]
    exact List.map_congr_left fun r hr => by rw [Function.comp_apply, Record.hashed, ht r hr]
  have hnodup := t.nodup_hashed
  rw [← hhashed] at hnodup
  exact hnodup.of_map _

/-- The keys of the records are those that find one. -/
theorem mem_key_iff (ht : t.Tidy hash) :
    k ∈ t.records.map Record.key ↔ (t.find? (hash k) k).isSome = true := by
  rw [List.mem_map, Option.isSome_iff_exists]
  exact exists_congr fun r => ht.find?_eq_some_iff.symm

/-- A table is empty if no key finds anything. -/
theorem size_eq_zero_iff (ht : t.Tidy hash) : t.size = 0 ↔ ∀ k, t.find? (hash k) k = none := by
  rw [← length_records, List.length_eq_zero_iff]
  constructor
  · intro hempty k
    refine Option.eq_none_iff_forall_ne_some.2 fun r hr => ?_
    have hmem := (ht.find?_eq_some_iff.1 hr).1
    rw [hempty] at hmem
    cases hmem
  · intro hnone
    refine List.eq_nil_iff_forall_not_mem.2 fun r hr => ?_
    have hfound := ht.find?_eq_some_iff.2 ⟨hr, rfl⟩
    rw [hnone] at hfound
    cases hfound

/-- What the records are under their keys, as far as `f` tells. -/
theorem mem_map_iff {α : Type} {f : Record K V → α} (ht : t.Tidy hash) {a : α} :
    (k, a) ∈ t.records.map (fun r => (r.key, f r)) ↔ (t.find? (hash k) k).map f = some a := by
  simp only [List.mem_map, Prod.mk.injEq, Option.map_eq_some_iff, ht.find?_eq_some_iff, and_assoc]

/-- **Tables in which keys find the same list the same**, as far as `f` tells, though each is searched
by a hash of its own. -/
theorem map_perm {α : Type} {f : Record K V → α} (ht : t.Tidy hash) (ht' : t'.Tidy hash')
    (hfind : ∀ k, (t.find? (hash k) k).map f = (t'.find? (hash' k) k).map f) :
    (t.records.map f).Perm (t'.records.map f) := by
  have hnodup : ∀ {t : RecordTable K V} {hash : K → UInt64}, t.Tidy hash →
      (t.records.map fun r => (r.key, f r)).Nodup := fun ht => by
    refine List.Nodup.of_map Prod.fst ?_
    rw [List.map_map]
    exact ht.nodup_key
  have hsame : ∀ e, e ∈ t.records.map (fun r => (r.key, f r)) ↔
      e ∈ t'.records.map fun r => (r.key, f r) := fun e => by
    rw [ht.mem_map_iff, ht'.mem_map_iff, hfind]
  have hperm := (List.perm_ext_iff_of_nodup (hnodup ht) (hnodup ht')).2 hsame
  have hvalues := hperm.map Prod.snd
  rwa [List.map_map, List.map_map] at hvalues

end Tidy
end RecordTable
end ClusterCache
