/-
# Tables of records

A table files each record under the hash and the key that the record has.  Whoever looks for a record
gives a hash and a key: the hash says which records come into question, and of these the one with an
equal key is found.  Keys with one hash are therefore told apart, and a key is not found by a hash under
which it was not filed.  `find?_insert` and `find?_erase` say what is found after a change.

That nothing stands under a hash or a key that is not its own is part of the type.
-/

import ClusterCache.KeyMap
import ClusterCache.Cache.Record

namespace ClusterCache

/-- Records, each filed under its hash and its key. -/
structure RecordTable (K V : Type) [DecidableEq K] where
  entries : KeyMap (Hashed K) (Record K V)
  /-- A record is filed under what it has itself. -/
  filed : ∀ e r, entries.get? e = some r → r.hashed = e

namespace RecordTable

variable {K V : Type} [DecidableEq K]

/-- The table without records. -/
def empty : RecordTable K V := ⟨.empty, fun e r h => by cases h⟩

/-- The records, in no order that means anything. -/
def records (t : RecordTable K V) : List (Record K V) := t.entries.values

/-- The number of records. -/
def size (t : RecordTable K V) : Nat := t.entries.size

/-- The record with the key `k` among those with the hash `h`. -/
def find? (t : RecordTable K V) (h : UInt64) (k : K) : Option (Record K V) := t.entries.get? ⟨h, k⟩

/-- Files a record; one with its hash and its key makes room for it. -/
def insert (t : RecordTable K V) (r : Record K V) : RecordTable K V :=
  ⟨t.entries.insert r.hashed r, fun e r' h => by
    rw [KeyMap.get?_insert] at h
    split at h
    · rename_i he
      rw [he, Option.some.inj h]
    · exact t.filed e r' h⟩

/-- Drops the record with the key `k` among those with the hash `h`, if there is one. -/
def erase (t : RecordTable K V) (h : UInt64) (k : K) : RecordTable K V :=
  ⟨t.entries.erase ⟨h, k⟩, fun e r he => by
    rw [KeyMap.get?_erase] at he
    split at he
    · cases he
    · exact t.filed e r he⟩

/-! ### What is found -/

/-- In a table without records nothing is found. -/
@[simp] theorem find?_empty (h : UInt64) (k : K) : (empty : RecordTable K V).find? h k = none := rfl

/-- What is found has the hash and the key that were given. -/
theorem of_find? {t : RecordTable K V} {h : UInt64} {k : K} {r : Record K V}
    (hr : t.find? h k = some r) : r.hash = h ∧ r.key = k := by
  have hfiled : r.hashed = ⟨h, k⟩ := t.filed _ r hr
  exact ⟨congrArg Hashed.hash hfiled, congrArg Hashed.key hfiled⟩

/-- A record that was put in is found by its hash and its key, and no other search changes. -/
theorem find?_insert (t : RecordTable K V) (r : Record K V) (h : UInt64) (k : K) :
    (t.insert r).find? h k = if h = r.hash ∧ k = r.key then some r else t.find? h k := by
  simp only [find?, insert, Record.hashed, KeyMap.get?_insert, Hashed.mk.injEq]

/-- Under a hash and a key that were dropped nothing is found, and no other search changes. -/
theorem find?_erase (t : RecordTable K V) (h : UInt64) (k : K) (h' : UInt64) (k' : K) :
    (t.erase h k).find? h' k' = if h' = h ∧ k' = k then none else t.find? h' k' := by
  simp only [find?, erase, KeyMap.get?_erase, Hashed.mk.injEq]

/-- The records of a table are those that are found by their own hash and key. -/
theorem mem_records_iff {t : RecordTable K V} {r : Record K V} :
    r ∈ t.records ↔ t.find? r.hash r.key = some r := by
  rw [records, KeyMap.values, List.mem_map]
  constructor
  · rintro ⟨⟨e, r⟩, he, rfl⟩
    have hget := KeyMap.mem_toList_iff.1 he
    have hfiled := t.filed e r hget
    rwa [← hfiled] at hget
  · intro hr
    exact ⟨(⟨r.hash, r.key⟩, r), KeyMap.mem_toList_iff.2 hr, rfl⟩

end RecordTable
end ClusterCache
