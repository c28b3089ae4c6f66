/-
# Finite maps that keep their order

`Assoc K V` maps each of finitely many keys to one value and lists its entries in the order in
which their keys came in.  Writing to a key that is there keeps its place.  The type rules out a
key with two entries, so `toList`, `get?` and `size` describe the same map: `mem_toList_iff`
and `get?_insert`, `get?_erase` say what each operation does to what can be looked up.

The entries are held in the opposite order, so that a new key goes in front of the others and these
stay as they are.
-/

namespace ClusterCache

/-- A finite map as the list of its entries, no key twice. -/
structure Assoc (K V : Type) where
  /-- The entries, the one whose key came in last in front. -/
  entries : List (K × V)
  /-- No key has two entries. -/
  nodup : (entries.map Prod.fst).Nodup

namespace Assoc

variable {K V : Type}

/-- The map without entries. -/
def empty : Assoc K V := ⟨[], by simp⟩

instance : Inhabited (Assoc K V) := ⟨empty⟩

/-- The number of entries. -/
def size (m : Assoc K V) : Nat := m.entries.length

/-- The entries, in the order in which their keys came in. -/
def toList (m : Assoc K V) : List (K × V) := m.entries.reverse

/-- The keys, in the order in which they came in. -/
def keys (m : Assoc K V) : List K := m.toList.map Prod.fst

/-- Whether there are no entries. -/
def isEmpty (m : Assoc K V) : Bool := m.entries.isEmpty

/-- The entries that satisfy `p`, in their order. -/
def filter (m : Assoc K V) (p : K → V → Bool) : Assoc K V :=
  ⟨m.entries.filter fun e => p e.1 e.2, m.nodup.sublist (List.filter_sublist.map Prod.fst)⟩

section

variable [DecidableEq K]

/-- The value of `k`. -/
def get? (m : Assoc K V) (k : K) : Option V := (m.entries.find? fun e => e.1 = k).map Prod.snd

/-- Whether `k` has a value. -/
def contains (m : Assoc K V) (k : K) : Bool := m.entries.any fun e => e.1 = k

/-- Gives the key `k` of an entry list the value `v`, in its place. -/
def overwrite (k : K) (v : V) : List (K × V) → List (K × V)
  | [] => []
  | e :: es => if e.1 = k then (e.1, v) :: es else e :: overwrite k v es

/-- Writing over the value of a key leaves the keys as they are. -/
theorem map_fst_overwrite (k : K) (v : V) (es : List (K × V)) :
    (overwrite k v es).map Prod.fst = es.map Prod.fst := by
  induction es with
  | nil => rfl
  | cons e es ih => by_cases h : e.1 = k <;> simp [overwrite, h, ih]

/-- A key is not found exactly if no entry has it. -/
theorem get?_eq_none_iff {m : Assoc K V} {k : K} :
    m.get? k = none ↔ k ∉ m.entries.map Prod.fst := by
  simp only [get?, Option.map_eq_none_iff, List.find?_eq_none, decide_eq_true_eq, List.mem_map,
    not_exists, not_and]

/-- Gives `k` the value `v`, in its place if `k` is there, else as the last; answers the value that
it had. -/
def exchange (m : Assoc K V) (k : K) (v : V) : Option V × Assoc K V :=
  match h : m.get? k with
  | some old => (some old, ⟨overwrite k v m.entries, by rw [map_fst_overwrite]; exact m.nodup⟩)
  | none => (none, ⟨(k, v) :: m.entries, List.nodup_cons.2 ⟨get?_eq_none_iff.1 h, m.nodup⟩⟩)

/-- Gives `k` the value `v`: in its place if `k` is there, else as the last. -/
def insert (m : Assoc K V) (k : K) (v : V) : Assoc K V := (m.exchange k v).2

/-- Drops the entry of `k`, if it has one. -/
def erase (m : Assoc K V) (k : K) : Assoc K V := m.filter fun k' _ => k' ≠ k

end

/-! ### What can be looked up -/

/-- The empty map has no entries. -/
@[simp] theorem size_empty : (empty : Assoc K V).size = 0 := rfl

/-- There is only one empty map. -/
theorem eq_empty_of_isEmpty {m : Assoc K V} (h : m.isEmpty) : m = empty := by
  obtain ⟨es, nd⟩ := m
  obtain rfl : es = [] := List.isEmpty_iff.1 h
  rfl

/-- The empty map lists nothing. -/
@[simp] theorem toList_empty : (empty : Assoc K V).toList = [] := rfl

/-- No key is listed twice. -/
theorem nodup_keys (m : Assoc K V) : m.keys.Nodup := by
  rw [keys, toList, List.map_reverse]
  exact List.pairwise_reverse.2 (m.nodup.imp Ne.symm)

/-- A map lists as many entries as it has. -/
@[simp] theorem length_toList (m : Assoc K V) : m.toList.length = m.size := List.length_reverse

variable [DecidableEq K]

/-- Nothing is found in the empty map. -/
@[simp] theorem get?_empty (k : K) : (empty : Assoc K V).get? k = none := rfl

/-- The entries listed are those that are found. -/
theorem mem_toList_iff {m : Assoc K V} {k : K} {v : V} :
    (k, v) ∈ m.toList ↔ m.get? k = some v := by
  obtain ⟨es, nd⟩ := m
  simp only [toList, get?, List.mem_reverse]
  induction es with
  | nil => simp
  | cons e es ih =>
    obtain ⟨a, b⟩ := e
    simp only [List.map_cons, List.nodup_cons] at nd
    by_cases h : a = k
    · subst h
      have hother : (a, v) ∉ es := fun hm => nd.1 (List.mem_map_of_mem (f := Prod.fst) hm)
      simp [hother, eq_comm]
    · simp [h, Ne.symm h, ih nd.2]

/-- The keys listed are those that are found with some value. -/
theorem mem_keys_iff {m : Assoc K V} {k : K} : k ∈ m.keys ↔ ∃ v, m.get? k = some v := by
  rw [keys, List.mem_map]
  constructor
  · rintro ⟨⟨k, v⟩, he, rfl⟩
    exact ⟨v, mem_toList_iff.1 he⟩
  · rintro ⟨v, hv⟩
    exact ⟨(k, v), mem_toList_iff.2 hv, rfl⟩

/-- After a selection a key is found if it was found before with a value that passes. -/
theorem get?_filter (m : Assoc K V) (p : K → V → Bool) (k : K) :
    (m.filter p).get? k = (m.get? k).filter (p k) := by
  have key : ∀ v, (m.filter p).get? k = some v ↔ (m.get? k).filter (p k) = some v := fun v => by
    rw [← mem_toList_iff, Option.filter_eq_some_iff, ← mem_toList_iff]
    simp [filter, toList]
  cases h : (m.filter p).get? k with
  | none =>
    cases h' : (m.get? k).filter (p k) with
    | none => rfl
    | some v => rw [(key v).2 h'] at h; cases h
  | some v => exact ((key v).1 h).symm

/-- After a key is erased every other key is found as before. -/
theorem get?_erase (m : Assoc K V) (k k' : K) :
    (m.erase k).get? k' = if k' = k then none else m.get? k' := by
  rw [erase, get?_filter]
  by_cases h : k' = k <;> cases m.get? k' <;> simp [h]

/-- Overwriting one key is seen at that key and nowhere else. -/
theorem find?_overwrite (k : K) (v : V) (es : List (K × V)) (k' : K) :
    (overwrite k v es).find? (fun e => e.1 = k') =
      (es.find? fun e => e.1 = k').map fun e => if k' = k then (e.1, v) else e := by
  by_cases hk : k' = k
  · subst hk
    induction es with
    | nil => rfl
    | cons e es ih => by_cases h : e.1 = k' <;> simp_all [overwrite]
  · induction es with
    | nil => rfl
    | cons e es ih =>
      by_cases h : e.1 = k
      · simp [overwrite, h, hk, Ne.symm hk]
      · by_cases h' : e.1 = k' <;> simp_all [overwrite]

/-- An exchange answers the value that the key had. -/
@[simp] theorem exchange_fst (m : Assoc K V) (k : K) (v : V) : (m.exchange k v).1 = m.get? k := by
  unfold exchange
  split <;> rename_i h <;> exact h.symm

/-- After an insertion the key has the new value, and every other key is found as before. -/
theorem get?_insert (m : Assoc K V) (k : K) (v : V) (k' : K) :
    (m.insert k v).get? k' = if k' = k then some v else m.get? k' := by
  unfold insert exchange
  split
  · rename_i old h
    simp only [get?, find?_overwrite, Option.map_map] at h ⊢
    by_cases hk : k' = k
    · subst hk
      obtain ⟨e, he, -⟩ := Option.map_eq_some_iff.1 h
      simp [he]
    · simp [hk, Function.comp_def]
  · by_cases hk : k' = k
    · simp [get?, hk]
    · simp [get?, hk, Ne.symm hk]

end Assoc

end ClusterCache
