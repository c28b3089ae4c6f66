/-
# What a shard holds, and what its strategy takes it to hold

Every operation of a shard moves records: what it hands out and what it keeps are together what it
kept before and what it was given (`place_perm`, `detach_perm`, `evict_perm`).  This holds whatever
the strategy does, and by whatever hash the keys are looked for.

Two properties of a shard are kept by every operation.  A shard is *filed* if each record carries the
hash of its key and belongs in this shard (`Filed`).  A shard *agrees* with its strategy if the keys
that the strategy takes for held are those that their hash finds (`Agrees`); then a victim is always
found (`Agrees.pop_held`), and none is named only by an empty shard (`Agrees.evict_eq_none_iff`).
-/

import ClusterCache.Cache.Shard
import ClusterCache.Proofs.Cache.RecordTable
import ClusterCache.Proofs.Eviction.Lirs.Tracking

namespace ClusterCache

/-- The strategies that know the keys of their shard and can name one as long as there are any. -/
inductive Bounding (K : Type) [DecidableEq K] [Hashable K] : Strategy K → Type
  | lru : Bounding K (.lru K)
  | lirs (ratio : Float) : Bounding K (.lirs K ratio)
  | fifo : Bounding K (.fifo K)
  | unordered : Bounding K (.unordered K)

namespace Bounding

variable {K : Type} [DecidableEq K] [Hashable K]

/-- How each of the strategies knows its keys. -/
def tracking : {S : Strategy K} → Bounding K S → S.Tracking
  | _, lru => Lru.tracking
  | _, lirs ratio => Lirs.tracking ratio
  | _, fifo => Fifo.tracking
  | _, unordered => Unordered.tracking

end Bounding

namespace Shard

variable {K V : Type} [DecidableEq K] {S : Strategy K} {s : Shard S V} {r : Record K V} {h : UInt64}
  {k : K} {hash : K → UInt64} {home : UInt64 → Nat} {i : Nat}

/-! ### Records move -/

/-- A shard has as many records as it lists. -/
theorem size_eq_length (s : Shard S V) : s.size = s.records.length := s.table.length_records.symm

/-- A record that is stored takes the place of the one that its hash and its key find. -/
@[simp] theorem place_fst (s : Shard S V) (r : Record K V) :
    (s.place r).1 = s.find? r.hash r.key := by
  unfold place
  split <;> rename_i hr <;> exact hr.symm

/-- A record that is stored is put into the table. -/
@[simp] theorem place_table (s : Shard S V) (r : Record K V) :
    (s.place r).2.table = s.table.insert r := by
  unfold place
  split <;> rfl

/-- The strategy is told of an access if the key was held, and of a new key otherwise. -/
theorem place_memory (s : Shard S V) (r : Record K V) :
    (s.place r).2.memory = match s.find? r.hash r.key with
      | some _ => S.access s.memory r.key
      | none => S.push s.memory r.key := by
  unfold place
  cases hfound : s.find? r.hash r.key with
  | none => rfl
  | some old =>
    have hkey : old.key = r.key := (RecordTable.of_find? hfound).2
    exact congrArg (S.access s.memory) hkey

/-- Looking a key up leaves the records as they are. -/
@[simp] theorem lookup_table (s : Shard S V) (h : UInt64) (k : K) :
    (s.lookup h k).2.table = s.table := by
  unfold lookup
  split
  · split <;> rfl
  · rfl

/-- Looking a key up answers the record that is found. -/
theorem lookup_fst (s : Shard S V) (h : UInt64) (k : K) : (s.lookup h k).1 = s.find? h k := by
  unfold lookup
  split <;> rename_i hr <;> exact hr.symm

/-- A key that is not found is not taken out. -/
theorem detach_of_none (hk : s.find? h k = none) : s.detach h k = (none, s) := by
  rw [detach, hk]

/-- A record that is found is taken out, and the strategy is told. -/
theorem detach_of_some (hr : s.find? h k = some r) :
    s.detach h k = (some r, ⟨s.table.erase h k, S.remove s.memory k⟩) := by
  have hkey : r.key = k := (RecordTable.of_find? hr).2
  rw [detach, hr, ← hkey]

/-- Taking a key out answers the record that is found. -/
@[simp] theorem detach_fst (s : Shard S V) (h : UInt64) (k : K) : (s.detach h k).1 = s.find? h k := by
  unfold detach
  split <;> rename_i hr <;> exact hr.symm

/-- A shard gives up a record that it holds, or none and keeps all. -/
theorem evictWithin_cases (hash : K → UInt64) (patience : Nat) (sh : S.Shared) (s : Shard S V) :
    (∃ k r, s.find? (hash k) k = some r ∧ (s.evictWithin hash patience sh).1 = some r ∧
      (s.evictWithin hash patience sh).2.2.table = s.table.erase (hash k) k) ∨
    (s.evictWithin hash patience sh).1 = none ∧
      (s.evictWithin hash patience sh).2.2.table = s.table := by
  fun_induction evictWithin hash patience sh s with
  | case1 => exact Or.inr ⟨rfl, rfl⟩
  | case2 _ _ s k _ _ _ r hr => exact Or.inl ⟨k, r, hr, rfl, rfl⟩
  | case3 => exact Or.inr ⟨rfl, rfl⟩
  | case4 _ _ _ _ _ _ _ _ ih => exact ih

/-- What a new record drives out and what there is then are what there was and the record. -/
theorem place_perm (s : Shard S V) (r : Record K V) :
    ((s.place r).1.toList ++ (s.place r).2.records).Perm (r :: s.records) := by
  rw [records, place_fst, place_table]
  exact s.table.toList_append_records_insert r

/-- What is taken out and what is left are what there was. -/
theorem detach_perm (s : Shard S V) (h : UInt64) (k : K) :
    ((s.detach h k).1.toList ++ (s.detach h k).2.records).Perm s.records := by
  have herase := s.table.toList_append_records_erase h k
  cases hk : s.find? h k with
  | none => rw [detach_of_none hk]; exact List.Perm.refl _
  | some r =>
    rw [detach_of_some hk]
    rwa [show s.table.find? h k = some r from hk] at herase

/-- What is given up and what is left are what there was. -/
theorem evict_perm (hash : K → UInt64) (sh : S.Shared) (s : Shard S V) :
    ((s.evict hash sh).1.toList ++ (s.evict hash sh).2.2.records).Perm s.records := by
  unfold evict
  rcases evictWithin_cases hash (S.patience (s.holds hash) sh s.memory) sh s with
    ⟨k, r, hk, hr, ht⟩ | ⟨hr, ht⟩
  · rw [hr, records, ht]
    exact (RecordTable.records_perm_of_find? hk).symm
  · rw [hr, records, ht]
    exact List.Perm.refl _

/-- Giving up a record makes no shard larger. -/
theorem size_evict_le (hash : K → UInt64) (sh : S.Shared) (s : Shard S V) :
    (s.evict hash sh).2.2.size ≤ s.size := by
  have hperm := (s.evict_perm hash sh).length_eq
  rw [List.length_append] at hperm
  rw [size_eq_length, size_eq_length]
  omega

/-! ### Records are where they belong -/

/-- Each record carries the hash of its key and stands in the shard that `home` names. -/
def Filed (hash : K → UInt64) (home : UInt64 → Nat) (i : Nat) (s : Shard S V) : Prop :=
  ∀ r ∈ s.records, r.hash = hash r.key ∧ home r.hash = i

/-- A property of shards with their places that every operation keeps, if keys are looked for by their
hash. -/
structure Kept (hash : K → UInt64) (home : UInt64 → Nat) (P : Nat → Shard S V → Prop) :
    Prop where
  place : ∀ {s} {r : Record K V}, r.hash = hash r.key → P (home r.hash) s →
    P (home r.hash) (s.place r).2
  lookup : ∀ {i s} (k : K), P i s → P i (s.lookup (hash k) k).2
  detach : ∀ {i s} (k : K), P i s → P i (s.detach (hash k) k).2
  evict : ∀ {i s} (sh : S.Shared), P i s → P i (s.evict hash sh).2.2
  clear : ∀ {i s}, P i s → P i s.clear.2

/-- A shard with fewer records is filed if one with more is. -/
theorem Filed.mono {s s' : Shard S V} (hs : s.Filed hash home i) (h : s'.records ⊆ s.records) :
    s'.Filed hash home i := fun r hr => hs r (h hr)

/-- The table of a filed shard is tidy. -/
theorem Filed.tidy (hs : s.Filed hash home i) : s.table.Tidy hash := fun r hr => (hs r hr).1

/-- No two records of a filed shard have the same key. -/
theorem Filed.nodup_key (hs : s.Filed hash home i) : (s.records.map Record.key).Nodup :=
  hs.tidy.nodup_key

/-- The keys of the records of a filed shard are those that it holds. -/
theorem Filed.mem_key_iff (hs : s.Filed hash home i) :
    k ∈ s.records.map Record.key ↔ s.holds hash k = true := hs.tidy.mem_key_iff

/-- **Every operation of a shard leaves it filed.** -/
theorem kept_filed (hash : K → UInt64) (home : UInt64 → Nat) :
    Kept hash home (fun i (s : Shard S V) => s.Filed hash home i) where
  place {s r} hr hs r' hr' := by
    rw [records, place_table] at hr'
    rcases RecordTable.mem_records_of_insert hr' with rfl | hbefore
    · exact ⟨hr, rfl⟩
    · exact hs r' hbefore
  lookup {i s} k hs := by
    have hsame : (s.lookup (hash k) k).2.records = s.records := by
      rw [records, lookup_table, records]
    exact hs.mono (hsame ▸ List.Subset.refl _)
  detach {i s} k hs := by
    have hperm := detach_perm s (hash k) k
    exact hs.mono (List.Subset.trans (List.subset_append_right _ _) hperm.subset)
  evict {i s} sh hs := by
    have hperm := evict_perm hash sh s
    exact hs.mono (List.Subset.trans (List.subset_append_right _ _) hperm.subset)
  clear _ _ hr := nomatch hr

/-! ### The strategy knows the keys -/

/-- The strategy takes those keys for held that their hash finds. -/
structure Agrees (hash : K → UInt64) (T : S.Tracking) (s : Shard S V) : Prop where
  tidy : s.table.Tidy hash
  sound : T.Sound s.memory
  resident_iff : ∀ k, T.Resident s.memory k ↔ s.holds hash k = true

variable {T : S.Tracking}

/-- A new shard agrees with its strategy: there are no keys. -/
theorem Agrees.init (hash : K → UInt64) (T : S.Tracking) (n : Nat) : (init S V n).Agrees hash T where
  tidy := RecordTable.tidy_empty hash
  sound := T.sound_init n
  resident_iff k := iff_of_false (T.not_resident_init n k) Bool.false_ne_true

/-- The keys that the strategy takes for held are those of the records. -/
theorem Agrees.resident_iff_mem_key (hs : s.Agrees hash T) :
    T.Resident s.memory k ↔ k ∈ s.records.map Record.key :=
  (hs.resident_iff k).trans hs.tidy.mem_key_iff.symm

/-- Whoever is named is held. -/
theorem Agrees.pop_held (hs : s.Agrees hash T) {sh : S.Shared}
    (h : (S.pop sh s.memory).1 = some k) : s.holds hash k = true :=
  (hs.resident_iff k).1 (T.pop_resident sh hs.sound h)

/-- A shard that agrees with its strategy takes the first victim that is named. -/
theorem Agrees.evict_eq (hs : s.Agrees hash T) (sh : S.Shared) :
    (∃ k r, (S.pop sh s.memory).1 = some k ∧ s.find? (hash k) k = some r ∧
      s.evict hash sh =
        (some r, (S.pop sh s.memory).2.1, ⟨s.table.erase (hash k) k, (S.pop sh s.memory).2.2⟩)) ∨
    ((S.pop sh s.memory).1 = none ∧ s.evict hash sh =
      (none, (S.pop sh s.memory).2.1, ⟨s.table, (S.pop sh s.memory).2.2⟩)) := by
  have hheld : ∀ k, (S.pop sh s.memory).1 = some k → s.holds hash k = true :=
    fun k h => hs.pop_held h
  unfold evict evictWithin
  rcases hpop : S.pop sh s.memory with ⟨_ | k, sh', memory⟩
  · exact Or.inr ⟨rfl, rfl⟩
  · obtain ⟨r, hr⟩ := Option.isSome_iff_exists.1 (hheld k (by rw [hpop]))
    refine Or.inl ⟨k, r, rfl, hr, ?_⟩
    simp only [hr]

/-- **A shard gives up none exactly if it is empty.** -/
theorem Agrees.evict_eq_none_iff (hs : s.Agrees hash T) (sh : S.Shared) :
    (s.evict hash sh).1 = none ↔ s.size = 0 := by
  rw [size, hs.tidy.size_eq_zero_iff]
  rcases hs.evict_eq sh with ⟨k, r, -, hr, he⟩ | ⟨hpop, he⟩
  · rw [he]
    refine iff_of_false (by simp) fun hnone => ?_
    rw [find?, hnone] at hr
    cases hr
  · rw [he]
    refine iff_of_true rfl fun k => ?_
    have hgone : ¬ T.Resident s.memory k := T.pop_none sh hs.sound hpop k
    have hk := mt (hs.resident_iff k).2 hgone
    rwa [holds, contains, Option.not_isSome_iff_eq_none] at hk

/-- A key that is not found is not held. -/
theorem not_holds_of_find? (hk : s.find? (hash k) k = none) : s.holds hash k = false := by
  rw [holds, contains, hk]
  rfl

/-- A key that is found is held. -/
theorem holds_of_find? (hr : s.find? (hash k) k = some r) :
    s.holds hash k = true := by
  rw [holds, contains, hr]
  rfl

/-- Without the record of one key the others are still held, and only they. -/
theorem holds_iff_of_erase {m : S.State} {a : K} :
    (⟨s.table.erase (hash k) k, m⟩ : Shard S V).holds hash a = true ↔
      a ≠ k ∧ s.holds hash a = true := by
  rw [holds, contains, find?, RecordTable.find?_erase_hash, holds, contains, find?]
  by_cases ha : a = k <;> simp [ha]

/-- After a record was stored its key is held, and the keys that were. -/
theorem holds_place_iff (hr : r.hash = hash r.key) :
    (s.place r).2.holds hash k = true ↔ k = r.key ∨ s.holds hash k = true := by
  rw [holds, contains, find?, place_table, RecordTable.find?_insert_hash _ hr, holds, contains, find?]
  by_cases hk : k = r.key <;> simp [hk]

/-- A shard still agrees with its strategy when a record was stored. -/
theorem Agrees.place (hs : s.Agrees hash T) (hr : r.hash = hash r.key) :
    (s.place r).2.Agrees hash T := by
  have htidy : (s.place r).2.table.Tidy hash := by
    rw [place_table]
    exact hs.tidy.insert hr
  have hmemory := s.place_memory r
  cases hfound : s.find? r.hash r.key with
  | none =>
    rw [hfound] at hmemory
    simp only at hmemory
    refine ⟨htidy, hmemory ▸ T.sound_push _ hs.sound, fun k => ?_⟩
    rw [hmemory, T.resident_push hs.sound, holds_place_iff hr, hs.resident_iff]
  | some old =>
    rw [hfound] at hmemory
    simp only at hmemory
    refine ⟨htidy, hmemory ▸ T.sound_access _ hs.sound, fun k => ?_⟩
    rw [hmemory, T.resident_access hs.sound, holds_place_iff hr, hs.resident_iff]
    rw [hr] at hfound
    have hheld : s.holds hash r.key = true := holds_of_find? hfound
    exact ⟨Or.inr, fun hk => hk.elim (fun he => he ▸ hheld) id⟩

/-- A shard still agrees with its strategy when a key was looked up. -/
theorem Agrees.lookup (hs : s.Agrees hash T) (h : UInt64) (k : K) :
    (s.lookup h k).2.Agrees hash T := by
  unfold Shard.lookup
  split
  · split
    · exact ⟨hs.tidy, T.sound_access _ hs.sound,
        fun a => (T.resident_access hs.sound).trans (hs.resident_iff a)⟩
    · exact hs
  · exact hs

/-- A shard still agrees with its strategy when a key was taken out. -/
theorem Agrees.detach (hs : s.Agrees hash T) (k : K) : (s.detach (hash k) k).2.Agrees hash T := by
  cases hfound : s.find? (hash k) k with
  | none => rw [detach_of_none hfound]; exact hs
  | some r =>
    rw [detach_of_some hfound]
    refine ⟨hs.tidy.erase _ _, T.sound_remove k hs.sound, fun a => ?_⟩
    rw [T.resident_remove hs.sound, holds_iff_of_erase, hs.resident_iff]

/-- A shard still agrees with its strategy when a record was given up. -/
theorem Agrees.evict (hs : s.Agrees hash T) (sh : S.Shared) :
    (s.evict hash sh).2.2.Agrees hash T := by
  have hsound := T.sound_pop sh hs.sound
  have hres := fun a => T.resident_pop (a := a) sh hs.sound
  rcases hs.evict_eq sh with ⟨k, r, hpop, -, he⟩ | ⟨hpop, he⟩
  · rw [he]
    refine ⟨hs.tidy.erase _ _, hsound, fun a => ?_⟩
    rw [hres, hpop, holds_iff_of_erase, hs.resident_iff]
    exact and_congr_left fun _ => not_congr ⟨fun h => (Option.some.inj h).symm, fun h => h ▸ rfl⟩
  · rw [he]
    refine ⟨hs.tidy, hsound, fun a => ?_⟩
    rw [hres, hpop, hs.resident_iff]
    exact and_iff_right (Option.some_ne_none a).symm

/-- A cleared shard agrees with its strategy: there are no keys. -/
theorem Agrees.clear (hash : K → UInt64) (s : Shard S V) : s.clear.2.Agrees hash T where
  tidy := RecordTable.tidy_empty hash
  sound := T.sound_clear _
  resident_iff a := iff_of_false (T.not_resident_clear _ a) Bool.false_ne_true

/-- **Being filed and agreeing with the strategy are kept together.** -/
theorem kept_agrees (hash : K → UInt64) (home : UInt64 → Nat) (T : S.Tracking) :
    Kept hash home (fun i (s : Shard S V) => s.Filed hash home i ∧ s.Agrees hash T) where
  place hr hs := ⟨(kept_filed hash home).place hr hs.1, hs.2.place hr⟩
  lookup k hs := ⟨(kept_filed hash home).lookup k hs.1, hs.2.lookup _ k⟩
  detach k hs := ⟨(kept_filed hash home).detach k hs.1, hs.2.detach k⟩
  evict sh hs := ⟨(kept_filed hash home).evict sh hs.1, hs.2.evict sh⟩
  clear hs := ⟨(kept_filed hash home).clear hs.1, .clear hash _⟩

end Shard
end ClusterCache
