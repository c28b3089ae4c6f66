/-
# Finite maps found by hash

`KeyMap K V` maps each of finitely many keys to one value, like `Assoc`, but finds a key among very
many quickly: the entries are spread over buckets by the hash of their keys, and the buckets stand in
a search tree.  The hash decides only in which bucket a key is looked for and never what is found, so
`get?_insert` and `get?_erase` hold for every hash.  It also decides the order of the listing, which
therefore means nothing; `mem_toList_iff` and `nodup_keys` say what is listed.
-/

import Std.Data.TreeMap
import ClusterCache.Assoc

namespace ClusterCache

/-- A finite map as a tree of buckets. -/
structure KeyMap (K V : Type) [DecidableEq K] [Hashable K] where
  /-- The entries by the hash of their keys. -/
  buckets : Std.TreeMap UInt64 (Assoc K V)
  /-- A key stands in the bucket of its hash and in no other. -/
  placed : ∀ h k, hash k ≠ h → (buckets.getD h .empty).get? k = none

namespace KeyMap

variable {K V : Type}

/-- The buckets with another one for the hash `h`; no bucket is kept empty. -/
def exchangeBucket (buckets : Std.TreeMap UInt64 (Assoc K V)) (h : UInt64) (b : Assoc K V) :
    Std.TreeMap UInt64 (Assoc K V) :=
  if b.isEmpty then buckets.erase h else buckets.insert h b

/-- Exchanging the bucket of a hash changes no other bucket. -/
theorem getD_exchangeBucket (buckets : Std.TreeMap UInt64 (Assoc K V)) (h : UInt64)
    (b : Assoc K V) (h' : UInt64) :
    (exchangeBucket buckets h b).getD h' .empty =
      if h' = h then b else buckets.getD h' .empty := by
  unfold exchangeBucket
  by_cases hh : h' = h
  · subst hh
    split
    · rename_i he
      simp [Assoc.eq_empty_of_isEmpty he]
    · simp
  · have : compare h h' ≠ .eq := fun hc => hh (Std.LawfulEqOrd.eq_of_compare hc).symm
    split <;> simp [Std.TreeMap.getD_erase, Std.TreeMap.getD_insert, this]

variable [DecidableEq K] [Hashable K]

/-- The map without entries. -/
def empty : KeyMap K V := ⟨∅, fun _ _ _ => by simp⟩

instance : Inhabited (KeyMap K V) := ⟨empty⟩

/-- The entries with hash `h`. -/
def bucket (m : KeyMap K V) (h : UInt64) : Assoc K V := m.buckets.getD h .empty

/-- The entries, in no order that means anything. -/
def toList (m : KeyMap K V) : List (K × V) := m.buckets.toList.flatMap fun e => e.2.toList

/-- The keys. -/
def keys (m : KeyMap K V) : List K := m.toList.map Prod.fst

/-- The values. -/
def values (m : KeyMap K V) : List V := m.toList.map Prod.snd

/-- The number of entries. -/
def size (m : KeyMap K V) : Nat := m.toList.length

/-- The value of `k`. -/
def get? (m : KeyMap K V) (k : K) : Option V := (m.bucket (hash k)).get? k

/-- Whether `k` has a value. -/
def contains (m : KeyMap K V) (k : K) : Bool := (m.get? k).isSome

/-- The map with another bucket for the hash `h`. -/
def withBucket (m : KeyMap K V) (h : UInt64) (b : Assoc K V)
    (hb : ∀ k, hash k ≠ h → b.get? k = none) : KeyMap K V :=
  ⟨exchangeBucket m.buckets h b, fun h' k hk => by
    rw [getD_exchangeBucket]
    by_cases hh : h' = h
    · rw [if_pos hh]; exact hb k (hh ▸ hk)
    · rw [if_neg hh]; exact m.placed h' k hk⟩

/-- Gives `k` the value `v`; answers the value that it had. -/
def exchange (m : KeyMap K V) (k : K) (v : V) : Option V × KeyMap K V :=
  match h : (m.bucket (hash k)).exchange k v with
  | (old, b) => (old, m.withBucket (hash k) b fun k' hk' => by
      have hb : b = (m.bucket (hash k)).insert k v := congrArg Prod.snd h.symm
      have hne : k' ≠ k := fun he => hk' (congrArg hash he)
      rw [hb, Assoc.get?_insert, if_neg hne]
      exact m.placed _ k' hk')

/-- Gives `k` the value `v`. -/
def insert (m : KeyMap K V) (k : K) (v : V) : KeyMap K V := (m.exchange k v).2

/-- Drops the entry of `k`, if it has one. -/
def erase (m : KeyMap K V) (k : K) : KeyMap K V :=
  m.withBucket (hash k) ((m.bucket (hash k)).erase k) fun k' hk' => by
    rw [Assoc.get?_erase, bucket, m.placed _ k' hk', ite_self]

/-! ### What can be looked up -/

/-- A map with another bucket for a hash has the old ones for the other hashes. -/
theorem bucket_withBucket (m : KeyMap K V) (h : UInt64) (b : Assoc K V)
    (hb : ∀ k, hash k ≠ h → b.get? k = none) (h' : UInt64) :
    (m.withBucket h b hb).bucket h' = if h' = h then b else m.bucket h' :=
  getD_exchangeBucket m.buckets h b h'

/-- Nothing is found in the empty map. -/
@[simp] theorem get?_empty (k : K) : (empty : KeyMap K V).get? k = none := rfl

/-- An exchange answers the value that the key had. -/
@[simp] theorem exchange_fst (m : KeyMap K V) (k : K) (v : V) :
    (m.exchange k v).1 = m.get? k := Assoc.exchange_fst _ k v

/-- An exchange inserts. -/
@[simp] theorem exchange_snd (m : KeyMap K V) (k : K) (v : V) :
    (m.exchange k v).2 = m.insert k v := rfl

/-- After an insertion the key has the new value, and every other key is found as before, those of
the same hash included. -/
theorem get?_insert (m : KeyMap K V) (k : K) (v : V) (k' : K) :
    (m.insert k v).get? k' = if k' = k then some v else m.get? k' := by
  unfold get? insert exchange
  rw [bucket_withBucket]
  split
  · rename_i h
    rw [show ((m.bucket (hash k)).exchange k v).2 = (m.bucket (hash k)).insert k v from rfl,
      Assoc.get?_insert, h]
  · rename_i h
    have : k' ≠ k := fun he => h (congrArg hash he)
    rw [if_neg this]

/-- After a key is erased every other key is found as before, those of the same hash included. -/
theorem get?_erase (m : KeyMap K V) (k k' : K) :
    (m.erase k).get? k' = if k' = k then none else m.get? k' := by
  unfold get? erase
  rw [bucket_withBucket]
  split
  · rename_i h
    rw [Assoc.get?_erase, h]
  · rename_i h
    have : k' ≠ k := fun he => h (congrArg hash he)
    rw [if_neg this]

/-- A key that a bucket holds has the hash of the bucket. -/
theorem hash_of_mem {m : KeyMap K V} {h : UInt64} {b : Assoc K V} {k : K} {v : V}
    (hb : m.buckets[h]? = some b) (hv : b.get? k = some v) : hash k = h := by
  refine Decidable.byContradiction fun hk => ?_
  have := m.placed h k hk
  rw [Std.TreeMap.getD_eq_getD_getElem?, hb, Option.getD_some, hv] at this
  cases this

/-- The entries listed are those that are found: each stands in the bucket of its hash. -/
theorem mem_toList_iff {m : KeyMap K V} {k : K} {v : V} :
    (k, v) ∈ m.toList ↔ m.get? k = some v := by
  simp only [toList, List.mem_flatMap, Prod.exists, Std.TreeMap.mem_toList_iff_getElem?_eq_some,
    Assoc.mem_toList_iff, get?, bucket, Std.TreeMap.getD_eq_getD_getElem?]
  constructor
  · rintro ⟨h, b, hb, hv⟩
    have hhash : hash k = h := hash_of_mem hb hv
    rw [hhash, hb, Option.getD_some, hv]
  · intro hv
    cases hb : m.buckets[hash k]? with
    | none =>
      rw [hb] at hv
      cases hv
    | some b =>
      have hget : b.get? k = some v := by rwa [hb] at hv
      exact ⟨hash k, b, hb, hget⟩

/-- No key is listed twice. -/
theorem nodup_keys (m : KeyMap K V) : m.keys.Nodup := by
  rw [keys, toList, List.map_flatMap, List.Nodup, List.pairwise_flatMap]
  refine ⟨fun e _ => e.2.nodup_keys, ?_⟩
  refine List.Pairwise.imp_of_mem ?_ m.buckets.distinct_keys_toList
  rintro ⟨h, b⟩ ⟨h', b'⟩ hb hb' hne k hk k' hk' rfl
  obtain ⟨⟨_, v⟩, hv, rfl⟩ := List.mem_map.1 hk
  obtain ⟨⟨_, v'⟩, hv', hkk⟩ := List.mem_map.1 hk'
  cases hkk
  rw [Std.TreeMap.mem_toList_iff_getElem?_eq_some] at hb hb'
  have hhash := hash_of_mem hb (Assoc.mem_toList_iff.1 hv)
  have hhash' := hash_of_mem hb' (Assoc.mem_toList_iff.1 hv')
  rw [hhash'] at hhash
  exact hne (hhash ▸ Std.ReflOrd.compare_self)

end KeyMap
end ClusterCache
