/-
# What the indivisible steps do

Four questions are asked of each step of a cache.  Which records does it hand out, and what is left
(`place_perm`, `detach_perm`, `takeFrom_perm`, `clearShard_perm`)?  What becomes of `len`?  Do the
settings stay as they are (`SameSetup`)?  And do the shards keep those properties that every
operation of a shard keeps (`Each`)?

The number of records follows from the first answer: it is the length of the list of all records
(`stored_eq_length`).
-/

import ClusterCache.Cache.Call
import ClusterCache.Proofs.Cache.Shard
import ClusterCache.Proofs.Rows

namespace ClusterCache
namespace Cache

variable {K V : Type} [DecidableEq K] {S : Strategy K} {c c' c'' : Cache S V}
  {s s' : Shard S V} {r : Record K V} {i : Nat}

/-! ### One shard among the others -/

/-- Rows of which one is exchanged are together what they were, but for what the one gives and
takes. -/
theorem flatMap_set_perm {α β : Type} {f : α → List β} {l : List α} {i : Nat} {a a' : α}
    (out new : List β) (h : l[i]? = some a) (hp : (out ++ f a').Perm (new ++ f a)) :
    (out ++ (l.set i a').flatMap f).Perm (new ++ l.flatMap f) := by
  induction l generalizing i with
  | nil => cases h
  | cons b l ih =>
    cases i with
    | zero =>
      obtain rfl := Option.some.inj h
      rw [List.set_cons_zero, List.flatMap_cons, List.flatMap_cons, ← List.append_assoc,
        ← List.append_assoc]
      exact hp.append_right _
    | succ i =>
      have hrest : (out ++ (l.set i a').flatMap f).Perm (new ++ l.flatMap f) := ih h
      rw [List.set_cons_succ, List.flatMap_cons, List.flatMap_cons]
      have hmoved : (out ++ (f b ++ (l.set i a').flatMap f)).Perm
          (f b ++ (new ++ l.flatMap f)) :=
        (List.perm_append_comm_assoc ..).trans (hrest.append_left (f b))
      exact hmoved.trans (List.perm_append_comm_assoc ..)

/-- The records of a cache in which one shard was replaced. -/
theorem records_set_perm {shards : Array (Shard S V)} (out new : List (Record K V))
    (h : shards[i]? = some s) (hp : (out ++ s'.records).Perm (new ++ s.records)) :
    (out ++ (shards.setIfInBounds i s').toList.flatMap Shard.records).Perm
      (new ++ shards.toList.flatMap Shard.records) := by
  rw [Array.toList_setIfInBounds]
  exact flatMap_set_perm out new (by rwa [Array.getElem?_toList]) hp

/-- The records of a cache are those of its shards, one after the other. -/
theorem records_eq (c : Cache S V) : c.records = c.shards.toList.flatMap Shard.records := rfl

/-- **`stored` counts the records.** -/
theorem stored_eq_length (c : Cache S V) : c.stored = c.records.length := by
  rw [stored, records_eq]
  exact total_eq_length_flatMap Shard.size_eq_length _

/-- Records are counted by what goes out, what comes in and what stays. -/
theorem stored_of_perm (out new : List (Record K V))
    (h : (out ++ c'.records).Perm (new ++ c.records)) :
    out.length + c'.stored = new.length + c.stored := by
  have := h.length_eq
  rwa [List.length_append, List.length_append, ← stored_eq_length, ← stored_eq_length] at this

/-- If no shard has a record, none is stored. -/
theorem stored_eq_zero (h : ∀ (i : Nat) s, c.shards[i]? = some s → s.size = 0) :
    c.stored = 0 := by
  have hall : ∀ s ∈ c.shards.toList, s.size = 0 := fun s hs => by
    obtain ⟨i, hi⟩ := List.getElem?_of_mem hs
    exact h i s (by rwa [Array.getElem?_toList] at hi)
  rw [stored]
  generalize c.shards.toList = l at hall
  induction l with
  | nil => rfl
  | cons s l ih =>
    rw [total_cons, hall s (List.mem_cons_self ..), ih fun t ht => hall t (List.mem_cons_of_mem s ht)]

/-- There is a shard for every hash. -/
theorem shardOf_lt (hc : 0 < c.shards.size) (h : UInt64) : c.shardOf h < c.shards.size :=
  Nat.mod_lt _ hc

/-- There is a shard for every hash. -/
theorem exists_shard (hc : 0 < c.shards.size) (h : UInt64) : ∃ s, c.shards[c.shardOf h]? = some s :=
  ⟨_, Array.getElem?_eq_getElem (shardOf_lt hc h)⟩

/-! ### Records come and go -/

/-- The record that an insertion makes. -/
def newRecord (c : Cache S V) (k : K) (v : V) : Record K V := ⟨k, v, c.hash k, c.created⟩

/-- The records that a call makes. -/
def made (c : Cache S V) : Call S V → List (Record K V)
  | .insert k v => [c.newRecord k v]
  | _ => []

/-- An insertion makes the record that is due. -/
@[simp] theorem place_fst (c : Cache S V) (k : K) (v : V) : (c.place k v).1 = c.newRecord k v := by
  unfold place
  simp only
  split <;> rfl

/-- An insertion makes one record more. -/
@[simp] theorem created_place (c : Cache S V) (k : K) (v : V) :
    (c.place k v).2.2.created = c.created + 1 := by
  unfold place
  simp only
  split <;> rfl

/-- An insertion is one into the shard of the key. -/
theorem place_of_shard {k : K} (v : V) (hs : c.shards[c.shardOf (c.hash k)]? = some s) :
    c.place k v = (c.newRecord k v, (s.place (c.newRecord k v)).1, { c with
      created := c.created + 1
      shards := c.shards.setIfInBounds (c.shardOf (c.hash k)) (s.place (c.newRecord k v)).2
      len := if (s.place (c.newRecord k v)).1.isNone then c.len + 1 else c.len }) := by
  unfold place
  simp only [shardOf] at hs ⊢
  rw [hs]
  rfl

/-- An insertion brings in its record, and takes out at most the one it replaces. -/
theorem place_perm (hc : 0 < c.shards.size) (k : K) (v : V) :
    ((c.place k v).2.1.toList ++ (c.place k v).2.2.records).Perm
      (c.newRecord k v :: c.records) := by
  obtain ⟨s, hs⟩ := exists_shard hc (c.hash k)
  rw [place_of_shard v hs]
  exact records_set_perm _ [_] hs (s.place_perm _)

/-- A lookup leaves all records where they are. -/
theorem lookup_perm (c : Cache S V) (k : K) : (c.lookup k).2.records.Perm c.records := by
  unfold lookup
  cases hs : c.shards[c.shardOf (c.hash k)]? with
  | none =>
    simp only [hs]
    exact List.Perm.refl _
  | some s =>
    have hsame : (s.lookup (c.hash k) k).2.records = s.records := by
      rw [Shard.records, Shard.lookup_table, Shard.records]
    simp only [hs]
    exact records_set_perm [] [] hs (hsame ▸ List.Perm.refl _)

/-- A removal takes out what it answers, and nothing else. -/
theorem detach_perm (c : Cache S V) (k : K) :
    ((c.detach k).1.toList ++ (c.detach k).2.records).Perm c.records := by
  unfold detach
  cases hs : c.shards[c.shardOf (c.hash k)]? with
  | none => simp only [hs]; exact List.Perm.refl _
  | some s =>
    simp only [hs]
    exact records_set_perm _ [] hs (s.detach_perm _ k)

/-- An eviction takes out of a shard what it answers, and nothing else. -/
theorem takeFrom_perm (c : Cache S V) (i : Nat) :
    ((c.takeFrom i).1.toList ++ (c.takeFrom i).2.records).Perm c.records := by
  unfold takeFrom
  cases hs : c.shards[i]? with
  | none => exact List.Perm.refl _
  | some s => exact records_set_perm _ [] hs (s.evict_perm c.hash c.shared)

/-- Clearing a shard takes out what it answers, and nothing else. -/
theorem clearShard_perm (c : Cache S V) (i : Nat) :
    ((c.clearShard i).1 ++ (c.clearShard i).2.records).Perm c.records := by
  unfold clearShard
  cases hs : c.shards[i]? with
  | none => exact List.Perm.refl _
  | some s =>
    have hall : (s.records ++ []).Perm s.records := by rw [List.append_nil]
    exact records_set_perm _ [] hs hall

/-! ### The count -/

/-- An insertion counts one record more, unless it replaces one. -/
theorem len_place (hc : 0 < c.shards.size) (k : K) (v : V) :
    (c.place k v).2.2.len = c.len + 1 - (c.place k v).2.1.toList.length := by
  obtain ⟨s, hs⟩ := exists_shard hc (c.hash k)
  rw [place_of_shard v hs]
  rcases s.place (c.newRecord k v) with ⟨_ | old, s'⟩ <;> simp

/-- A lookup leaves the count. -/
theorem len_lookup (c : Cache S V) (k : K) : (c.lookup k).2.len = c.len := by
  unfold lookup
  simp only
  split <;> rfl

/-- A removal counts what it took out. -/
theorem len_detach (c : Cache S V) (k : K) :
    (c.detach k).2.len = c.len - (c.detach k).1.toList.length := by
  unfold detach
  simp only
  split
  · simp
  · rename_i s _
    rcases s.detach (c.hash k) k with ⟨_ | old, s'⟩ <;> simp

/-- An eviction leaves the count to its claim. -/
theorem len_takeFrom (c : Cache S V) (i : Nat) : (c.takeFrom i).2.len = c.len := by
  unfold takeFrom
  split <;> rfl

/-- Clearing a shard counts what it took out. -/
theorem len_clearShard (c : Cache S V) (i : Nat) :
    (c.clearShard i).2.len = c.len - (c.clearShard i).1.length := by
  unfold clearShard
  split
  · simp
  · rfl

/-- A claim is made for a record above the bound, and lowers the count. -/
theorem claim_eq_some_iff :
    c.claim = some c' ↔
      ∃ max, c.maxEntries = some max ∧ (max : Int) < c.len ∧ c' = { c with len := c.len - 1 } := by
  unfold claim
  cases c.maxEntries with
  | none => simp
  | some max =>
    by_cases h : (max : Int) < c.len
    · simp [h, eq_comm]
    · simp [h]

/-- There is nothing to claim exactly if no bound is exceeded. -/
theorem claim_eq_none_iff :
    c.claim = none ↔ ∀ max, c.maxEntries = some max → c.len ≤ max := by
  unfold claim
  cases c.maxEntries with
  | none => simp
  | some max =>
    by_cases h : (max : Int) < c.len
    · simp [h]
    · simp [h, Int.not_lt.1 h]

/-- A lookup makes no record. -/
theorem created_lookup (c : Cache S V) (k : K) : (c.lookup k).2.created = c.created := by
  unfold lookup
  simp only
  split <;> rfl

/-- A removal makes no record. -/
theorem created_detach (c : Cache S V) (k : K) : (c.detach k).2.created = c.created := by
  unfold detach
  simp only
  split <;> rfl

/-- An eviction makes no record. -/
theorem created_takeFrom (c : Cache S V) (i : Nat) : (c.takeFrom i).2.created = c.created := by
  unfold takeFrom
  split <;> rfl

/-- Clearing a shard makes no record. -/
theorem created_clearShard (c : Cache S V) (i : Nat) : (c.clearShard i).2.created = c.created := by
  unfold clearShard
  split <;> rfl

/-! ### What stays -/

/-- Everything that is chosen when a cache is made is as it was. -/
structure SameShape (c c' : Cache S V) : Prop where
  hash : c'.hash = c.hash
  size : c'.shards.size = c.shards.size
  config : c'.controller.config = c.controller.config

namespace SameShape

/-- A cache has its own shape. -/
theorem refl (c : Cache S V) : SameShape c c := ⟨rfl, rfl, rfl⟩

/-- The shape stays over two steps. -/
theorem trans (h : SameShape c c') (h' : SameShape c' c'') : SameShape c c'' :=
  ⟨h'.hash.trans h.hash, h'.size.trans h.size, h'.config.trans h.config⟩

/-- Caches of one shape have the same bound. -/
theorem maxEntries (h : SameShape c c') : c'.maxEntries = c.maxEntries := by
  rw [Cache.maxEntries, Cache.maxEntries, h.config]

/-- In caches of one shape a hash belongs to the same shard. -/
theorem shardOf (h : SameShape c c') : c'.shardOf = c.shardOf := by
  funext n
  rw [Cache.shardOf, Cache.shardOf, h.size]

end SameShape

/-- The cache also runs or not as it did. -/
structure SameSetup (c c' : Cache S V) : Prop where
  hash : c'.hash = c.hash
  size : c'.shards.size = c.shards.size
  controller : c'.controller = c.controller

namespace SameSetup

/-- A cache is set up as it is. -/
theorem refl (c : Cache S V) : SameSetup c c := ⟨rfl, rfl, rfl⟩

/-- The setup stays over two steps. -/
theorem trans (h : SameSetup c c') (h' : SameSetup c' c'') : SameSetup c c'' :=
  ⟨h'.hash.trans h.hash, h'.size.trans h.size, h'.controller.trans h.controller⟩

/-- Caches that are set up alike have the same shape. -/
theorem shape (h : SameSetup c c') : SameShape c c' :=
  ⟨h.hash, h.size, congrArg Controller.config h.controller⟩

/-- Caches that are set up alike run or do not run alike. -/
theorem isRunning (h : SameSetup c c') : c'.isRunning = c.isRunning := by
  rw [Cache.isRunning, Cache.isRunning, h.controller]

end SameSetup

/-- An insertion leaves the setup. -/
theorem sameSetup_place (c : Cache S V) (k : K) (v : V) : SameSetup c (c.place k v).2.2 := by
  unfold place
  simp only
  split
  · exact ⟨rfl, rfl, rfl⟩
  · exact ⟨rfl, Array.size_setIfInBounds, rfl⟩

/-- A lookup leaves the setup. -/
theorem sameSetup_lookup (c : Cache S V) (k : K) : SameSetup c (c.lookup k).2 := by
  unfold lookup
  simp only
  split
  · exact .refl c
  · exact ⟨rfl, Array.size_setIfInBounds, rfl⟩

/-- A removal leaves the setup. -/
theorem sameSetup_detach (c : Cache S V) (k : K) : SameSetup c (c.detach k).2 := by
  unfold detach
  simp only
  split
  · exact .refl c
  · exact ⟨rfl, Array.size_setIfInBounds, rfl⟩

/-- An eviction leaves the setup. -/
theorem sameSetup_takeFrom (c : Cache S V) (i : Nat) : SameSetup c (c.takeFrom i).2 := by
  unfold takeFrom
  split
  · exact .refl c
  · exact ⟨rfl, Array.size_setIfInBounds, rfl⟩

/-- Clearing a shard leaves the setup. -/
theorem sameSetup_clearShard (c : Cache S V) (i : Nat) : SameSetup c (c.clearShard i).2 := by
  unfold clearShard
  split
  · exact .refl c
  · exact ⟨rfl, Array.size_setIfInBounds, rfl⟩

/-- A claim leaves the setup. -/
theorem sameSetup_claim (h : c.claim = some c') : SameSetup c c' := by
  obtain ⟨max, -, -, rfl⟩ := claim_eq_some_iff.1 h
  exact ⟨rfl, rfl, rfl⟩

/-- Nothing but counters, the place of the next sweep and what the strategies share has changed. -/
structure Still (c c' : Cache S V) : Prop where
  shards : c'.shards = c.shards
  len : c'.len = c.len
  created : c'.created = c.created
  hash : c'.hash = c.hash
  controller : c'.controller = c.controller

namespace Still

/-- Nothing has changed where nothing was done. -/
theorem refl (c : Cache S V) : Still c c := ⟨rfl, rfl, rfl, rfl, rfl⟩

/-- Nothing else has changed over two steps. -/
theorem trans (h : Still c c') (h' : Still c' c'') : Still c c'' :=
  ⟨h'.shards.trans h.shards, h'.len.trans h.len, h'.created.trans h.created,
    h'.hash.trans h.hash, h'.controller.trans h.controller⟩

/-- The records are the same. -/
theorem records (h : Still c c') : c'.records = c.records := by
  rw [records_eq, records_eq, h.shards]

/-- The setup is the same. -/
theorem sameSetup (h : Still c c') : SameSetup c c' :=
  ⟨h.hash, congrArg Array.size h.shards, h.controller⟩

end Still

/-! ### What every shard keeps -/

/-- Every shard has a property, which may depend on its place. -/
def Each (P : Nat → Shard S V → Prop) (c : Cache S V) : Prop :=
  ∀ i s, c.shards[i]? = some s → P i s

variable {P : Nat → Shard S V → Prop}

/-- What every shard has they still have when one is exchanged for another that has it. -/
theorem Each.set (h : c.Each P) (hs : P i s) :
    ∀ j t, (c.shards.setIfInBounds i s)[j]? = some t → P j t := by
  intro j t ht
  rw [Array.getElem?_setIfInBounds] at ht
  split at ht
  · rename_i hij
    split at ht
    · obtain rfl := Option.some.inj ht
      exact hij ▸ hs
    · cases ht
  · exact h j t ht

/-- The properties that the operations of the shards of a cache keep. -/
abbrev Kept (c : Cache S V) (P : Nat → Shard S V → Prop) : Prop := Shard.Kept c.hash c.shardOf P

/-- What the operations of a shard keep depends only on the shape of the cache. -/
theorem SameShape.kept (h : SameShape c c') : c'.Kept P ↔ c.Kept P := by
  rw [Kept, Kept, h.hash, h.shardOf]

/-- What every shard has does not depend on counters. -/
theorem Each.of_still (h : c.Each P) (hs : Still c c') : c'.Each P := by
  intro i s hi
  rw [hs.shards] at hi
  exact h i s hi

/-- An insertion keeps what the operations of a shard keep. -/
theorem Each.place (hk : c.Kept P) (h : c.Each P) (k : K) (v : V) : (c.place k v).2.2.Each P := by
  cases hs : c.shards[c.shardOf (c.hash k)]? with
  | none =>
    unfold Cache.place
    simp only [Cache.shardOf] at hs ⊢
    rw [hs]
    exact h
  | some s =>
    have hplaced : P (c.shardOf (c.hash k)) (s.place (c.newRecord k v)).2 :=
      hk.place (r := c.newRecord k v) rfl (h _ s hs)
    rw [place_of_shard v hs]
    exact h.set hplaced

/-- A lookup keeps what the operations of a shard keep. -/
theorem Each.lookup (hk : c.Kept P) (h : c.Each P) (k : K) : (c.lookup k).2.Each P := by
  unfold Cache.lookup
  simp only
  split
  · exact h
  · rename_i s hs
    exact h.set (hk.lookup k (h _ s hs))

/-- A removal keeps what the operations of a shard keep. -/
theorem Each.detach (hk : c.Kept P) (h : c.Each P) (k : K) : (c.detach k).2.Each P := by
  unfold Cache.detach
  simp only
  split
  · exact h
  · rename_i s hs
    exact h.set (hk.detach k (h _ s hs))

/-- Taking a victim out of a shard keeps what an eviction from a shard keeps. -/
theorem Each.takeFrom (hP : ∀ {i s} (sh : S.Shared), P i s → P i (s.evict c.hash sh).2.2)
    (h : c.Each P) (i : Nat) : (c.takeFrom i).2.Each P := by
  unfold Cache.takeFrom
  split
  · exact h
  · rename_i s hs
    exact h.set (hP c.shared (h i s hs))

/-- A shard that gives up none is empty. -/
theorem Each.size_eq_zero_of_takeFrom {T : S.Tracking} (h : c.Each fun _ s => s.Agrees c.hash T)
    (hnone : (c.takeFrom i).1 = none) : (c.takeFrom i).2.Each fun j s => j = i → s.size = 0 := by
  intro j t ht hj
  unfold Cache.takeFrom at hnone ht
  cases hs : c.shards[i]? with
  | none =>
    rw [hs] at ht
    rw [hj, hs] at ht
    cases ht
  | some s =>
    rw [hs] at hnone ht
    have hempty := ((h i s hs).evict_eq_none_iff c.shared).1 hnone
    simp only [hj, Array.getElem?_setIfInBounds_self_of_lt (Array.getElem?_eq_some_iff.1 hs).1] at ht
    obtain rfl := Option.some.inj ht
    have hle := s.size_evict_le c.hash c.shared
    show (s.evict c.hash c.shared).2.2.size = 0
    omega

/-- The shard that is cleared has what clearing gives it, and the others have what they had. -/
theorem Each.clearShard_of {Q : Nat → Shard S V → Prop} (h : c.Each P) (i : Nat)
    (hcleared : ∀ {s}, P i s → Q i s.clear.2) (hothers : ∀ {j s}, j ≠ i → P j s → Q j s) :
    (c.clearShard i).2.Each Q := by
  intro j t ht
  unfold Cache.clearShard at ht
  cases hs : c.shards[i]? with
  | none =>
    rw [hs] at ht
    have hji : j ≠ i := by
      rintro rfl
      rw [hs] at ht
      cases ht
    exact hothers hji (h j t ht)
  | some s =>
    rw [hs] at ht
    simp only [Array.getElem?_setIfInBounds] at ht
    split at ht
    · rename_i hij
      split at ht
      · obtain rfl := Option.some.inj ht
        exact hij ▸ hcleared (h i s hs)
      · cases ht
    · rename_i hij
      exact hothers (Ne.symm hij) (h j t ht)

/-- Clearing one of the shards keeps what clearing a shard keeps. -/
theorem Each.clearShard (hP : ∀ {i s}, P i s → P i s.clear.2) (h : c.Each P) (i : Nat) :
    (c.clearShard i).2.Each P := h.clearShard_of i hP fun _ hs => hs

end Cache
end ClusterCache
