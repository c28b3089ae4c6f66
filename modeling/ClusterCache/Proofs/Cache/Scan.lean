/-
# Hot keys survive a scan

In a cache with one shard that tells hot keys from cold ones, a record is given up only when there is
one more than the bound allows.  There are fewer hot slots than that, so two keys at least are cold
then: the one at the front of the cold queue goes (`Shard.evict_cold`), which is neither a hot key nor
the key that has just come in (`Cache.Unstriped.ne_of_mem_insert`).

So whoever inserts keys of which nothing is known, as many as they like, drives out cold keys alone,
and what was hot stays (`Cache.Scan.hot`).
-/

import ClusterCache.Proofs.Cache.Course
import ClusterCache.Proofs.Cache.Steady
import ClusterCache.Proofs.Eviction.Lirs.Slots

namespace ClusterCache

variable {K V : Type} [DecidableEq K]

/-! ### What a strategy keeps -/

namespace Shard

variable {S : Strategy K}

/-- What every operation of a strategy keeps is kept in every shard that agrees with it. -/
theorem kept_memory (hash : K → UInt64) (home : UInt64 → Nat) (T : S.Tracking) {M : S.State → Prop}
    (push : ∀ {s} k, T.Sound s → M s → M (S.push s k))
    (access : ∀ {s} k, T.Sound s → M s → M (S.access s k)) (remove : ∀ {s} k, M s → M (S.remove s k))
    (pop : ∀ {s} sh, M s → M (S.pop sh s).2.2) (clear : ∀ {s}, M s → M (S.clear s)) :
    Kept hash home fun i (s : Shard S V) => (s.Filed hash home i ∧ s.Agrees hash T) ∧ M s.memory where
  place {s r} hr hs := by
    refine ⟨(kept_agrees hash home T).place hr hs.1, ?_⟩
    rw [place_memory]
    split
    · exact access _ hs.1.2.sound hs.2
    · exact push _ hs.1.2.sound hs.2
  lookup k hs := by
    refine ⟨(kept_agrees hash home T).lookup k hs.1, ?_⟩
    unfold Shard.lookup
    split
    · split
      · exact access _ hs.1.2.sound hs.2
      · exact hs.2
    · exact hs.2
  detach k hs := by
    refine ⟨(kept_agrees hash home T).detach k hs.1, ?_⟩
    unfold Shard.detach
    split
    · exact remove _ hs.2
    · exact hs.2
  evict {i s} sh hs := by
    refine ⟨(kept_agrees hash home T).evict sh hs.1, ?_⟩
    -- whether a record goes or none does, the strategy was asked once
    have hpop : M (S.pop sh s.memory).2.2 := pop sh hs.2
    rcases hs.1.2.evict_eq sh with ⟨k, r, -, -, he⟩ | ⟨-, he⟩
    · rw [he]
      exact hpop
    · rw [he]
      exact hpop
  clear hs := ⟨(kept_agrees hash home T).clear hs.1, clear hs.2⟩

end Shard

/-! ### Caches with one shard -/

namespace Cache

variable {S : Strategy K} {c : Cache S V} {s : Shard S V} {i : Nat}

/-- In a single shard every key is at home. -/
theorem shardOf_of_one (h : c.shards.size = 1) (hash : UInt64) : c.shardOf hash = 0 := by
  rw [shardOf, h, Nat.mod_one]

/-- A single shard is the first. -/
theorem eq_zero_of_one (h : c.shards.size = 1) (hs : c.shards[i]? = some s) : i = 0 := by
  have hi := (Array.getElem?_eq_some_iff.1 hs).1
  omega

/-- A single shard holds all that is stored. -/
theorem stored_of_one (h : c.shards.size = 1) (hs : c.shards[i]? = some s) :
    c.stored = s.size := by
  obtain rfl := eq_zero_of_one h hs
  have hlength : c.shards.toList.length = 1 := by rw [Array.length_toList, h]
  obtain ⟨t, ht⟩ := List.length_eq_one_iff.1 hlength
  rw [← Array.getElem?_toList, ht] at hs
  obtain rfl := Option.some.inj hs
  rw [stored, ht]
  exact Nat.zero_add _

/-- A record is in the way exactly if the key has one. -/
theorem place_eq_none_iff {k : K} (h : 0 < c.shards.size) (v : V) :
    (c.place k v).2.1 = none ↔ c.contains k = false := by
  rw [contains_eq_isSome_place h k v, Option.isSome_eq_false_iff, Option.isNone_iff_eq_none]

/-- A round through a single shard takes a record from it. -/
theorem takeFirst_of_one {c' : Cache S V} {r : Record K V} (h : c.shards.size = 1) {start : Nat}
    (htake : c.takeFirst (c.round start) = (some r, c')) : c.takeFrom 0 = (some r, c') := by
  have hround : c.round start = [0] := by
    rw [round, h]
    simp [List.range_succ, Nat.mod_one]
  rw [hround, takeFirst] at htake
  rcases ht : c.takeFrom 0 with ⟨_ | r', c₁⟩ <;> rw [ht] at htake
  · cases htake
  · exact htake

end Cache

variable [Hashable K] {ratio : Float} {slots max : Nat}

/-! ### Shards with hot keys -/

namespace Shard

/-- A shard has as many records as hot keys and keys in the cold queue. -/
theorem size_eq_held {hash : K → UInt64} {s : Shard (.lirs K ratio) V}
    (hs : s.Agrees hash (Lirs.tracking ratio)) :
    s.size = Lirs.hotCount s.memory + (Lirs.cold s.memory).toList.length := by
  have hsound : Lirs.Sound s.memory := hs.sound
  have hheld := hsound.length_eq hs.tidy.nodup_key fun _ => hs.resident_iff_mem_key
  rw [← hheld, List.length_map]
  exact s.size_eq_length

/-- **A shard that holds two keys more than there are hot slots has two cold ones.** -/
theorem two_le_length_cold {hash : K → UInt64} {s : Shard (.lirs K ratio) V}
    (hs : s.Agrees hash (Lirs.tracking ratio)) (hf : Lirs.Fits slots s.memory)
    (hsize : slots + 2 ≤ s.size) : 2 ≤ (Lirs.cold s.memory).toList.length := by
  have hheld := size_eq_held hs
  have hle := hf.hotCount
  omega

/-- **Such a shard gives up the front of the cold queue.** -/
theorem evict_cold {hash : K → UInt64} {s : Shard (.lirs K ratio) V}
    (hs : s.Agrees hash (Lirs.tracking ratio)) (hf : Lirs.Fits slots s.memory)
    (hsize : slots + 2 ≤ s.size) (sh : (Strategy.lirs K ratio).Shared) :
    ∃ r, (s.evict hash sh).1 = some r ∧ (Lirs.cold s.memory).toList.head? = some r.key ∧
      (s.evict hash sh).2.2.memory = (Lirs.pop s.memory).2 := by
  have hcold := two_le_length_cold hs hf hsize
  obtain ⟨k, hk⟩ : ∃ k, (Lirs.cold s.memory).toList.head? = some k := by
    cases h : (Lirs.cold s.memory).toList with
    | nil =>
      rw [h] at hcold
      exact absurd hcold (by simp)
    | cons k rest => exact ⟨k, rfl⟩
  have hpop : ((Strategy.lirs K ratio).pop sh s.memory).1 = some k := (hs.sound.pop_cold hk).1
  rcases hs.evict_eq sh with ⟨k', r, hk', hr, he⟩ | ⟨hnone, -⟩
  · obtain rfl : k = k' := Option.some.inj (hpop.symm.trans hk')
    have hkey : r.key = k := (RecordTable.of_find? hr).2
    rw [he]
    exact ⟨r, rfl, by rw [hk, hkey], rfl⟩
  · rw [hpop] at hnone
    cases hnone

end Shard

/-! ### Caches with hot keys -/

namespace Cache

variable {c c' : Cache (.lirs K ratio) V} {s : Shard (.lirs K ratio) V} {r : Record K V} {k a : K}
  {i : Nat}

/-- What is known about a key in its shard. -/
def status? (c : Cache (.lirs K ratio) V) (k : K) : Option Lirs.Status :=
  c.shards[c.shardOf (c.hash k)]?.bind fun s => (Lirs.status s.memory).get? k

/-- The cold key of a shard that goes next. -/
def coldFront? (c : Cache (.lirs K ratio) V) (i : Nat) : Option K :=
  c.shards[i]?.bind fun s => (Lirs.cold s.memory).toList.head?

/-- What the cache knows of a key is what its single shard knows. -/
theorem status?_of_one (h : c.shards.size = 1) (hs : c.shards[0]? = some s) (k : K) :
    c.status? k = (Lirs.status s.memory).get? k := by
  rw [status?, shardOf_of_one h, hs]
  rfl

/-- **Of too many records a cold one is given up**, the one whose key is at the front. -/
theorem takeFrom_cold (hone : c.shards.size = 1) {home : UInt64 → Nat}
    (heach : c.Each fun i s => (s.Filed c.hash home i ∧ s.Agrees c.hash (Lirs.tracking ratio)) ∧
      Lirs.Fits slots s.memory) (hstored : slots + 2 ≤ c.stored)
    (htake : c.takeFrom i = (some r, c')) :
    c.status? r.key = some .cold ∧ c.coldFront? i = some r.key ∧
      ∃ s s', c.shards[0]? = some s ∧ c'.shards[0]? = some s' ∧
        s'.memory = (Lirs.pop s.memory).2 := by
  cases hs : c.shards[i]? with
  | none =>
    rw [takeFrom, hs] at htake
    cases htake
  | some s =>
    obtain ⟨⟨-, hagrees⟩, hfits⟩ := heach i s hs
    obtain rfl := eq_zero_of_one hone hs
    rw [stored_of_one hone hs] at hstored
    obtain ⟨r', hr', hfront, hmemory⟩ := Shard.evict_cold hagrees hfits hstored c.shared
    rw [takeFrom, hs] at htake
    obtain ⟨hr, rfl⟩ := Prod.mk.inj htake
    obtain rfl : r' = r := Option.some.inj (hr'.symm.trans hr)
    have hcold : (Lirs.status s.memory).get? r'.key = some .cold :=
      hagrees.sound.mem_cold_iff.1 (List.mem_of_head? hfront)
    have hlt : 0 < c.shards.size := by omega
    refine ⟨?_, ?_, s, (s.evict c.hash c.shared).2.2, hs, ?_, hmemory⟩
    · rw [status?_of_one hone hs, hcold]
    · rw [coldFront?, hs]
      exact hfront
    · exact Array.getElem?_setIfInBounds_self_of_lt hlt

/-! ### Between calls -/

/-- A steady cache with one shard, in which fewer keys may be hot than there may be records. -/
structure Unstriped (slots max : Nat) (c : Cache (.lirs K ratio) V) : Prop extends
    c.Steady (Lirs.tracking ratio) max where
  one : c.shards.size = 1
  fits : c.Each fun _ s => Lirs.Fits slots s.memory
  slots_lt : slots < max

/-- The operations of a shard keep to the hot slots. -/
theorem kept_fits (hash : K → UInt64) (home : UInt64 → Nat) (ratio : Float) (slots : Nat) :
    Shard.Kept hash home fun i (s : Shard (.lirs K ratio) V) =>
      (s.Filed hash home i ∧ s.Agrees hash (Lirs.tracking ratio)) ∧ Lirs.Fits slots s.memory :=
  Shard.kept_memory hash home (Lirs.tracking ratio) (fun k hs h => h.push hs k)
    (fun k hs h => h.access hs k) (fun k h => h.remove k) (fun _ h => h.pop) fun h => h.clear

namespace Unstriped

/-- Its shard is filed, agrees with its strategy and keeps to the hot slots. -/
theorem each_fits (h : c.Unstriped slots max) :
    c.Each fun i s => (s.Filed c.hash c.shardOf i ∧ s.Agrees c.hash (Lirs.tracking ratio)) ∧
      Lirs.Fits slots s.memory := fun i s hs => ⟨h.each i s hs, h.fits i s hs⟩

/-- **Every call leaves such a cache one of its kind.** -/
theorem perform (h : c.Unstriped slots max) (x : Call (.lirs K ratio) V) :
    (c.perform x).2.2.Unstriped slots max where
  toSteady := h.toSteady.perform x
  one := (sameShape_perform c x).size.trans h.one
  fits i s hs := (h.each_fits.perform (kept_fits c.hash c.shardOf ratio slots) x i s hs).2
  slots_lt := h.slots_lt

/-- The only shard, before and after a record was stored under a key that has none. -/
theorem shard_place (h : c.Unstriped slots max) (v : V) (hnew : (c.place k v).2.1 = none) :
    ∃ s s', c.shards[0]? = some s ∧ (c.place k v).2.2.shards[0]? = some s' ∧
      ¬ Lirs.Resident s.memory k ∧ s'.memory = Lirs.push s.memory k := by
  obtain ⟨s, hs⟩ := exists_shard h.size_pos (c.hash k)
  have hplace := place_of_shard v hs
  have hlt := shardOf_lt h.size_pos (c.hash k)
  rw [hplace] at hnew
  have hk : s.find? (c.hash k) k = none := (s.place_fst (c.newRecord k v)).symm.trans hnew
  have hmemory := s.place_memory (c.newRecord k v)
  rw [show s.find? (c.newRecord k v).hash (c.newRecord k v).key = none from hk] at hmemory
  have hresident := ((h.each _ s hs).2.resident_iff k).1
  rw [hplace]
  rw [shardOf_of_one h.one] at hs hlt ⊢
  refine ⟨s, _, hs, Array.getElem?_setIfInBounds_self_of_lt hlt, fun hr => ?_, hmemory⟩
  have hcontains := hresident hr
  rw [Shard.holds, Shard.contains, hk] at hcontains
  cases hcontains

/-- The keys that have records are the hot ones and the cold ones. -/
theorem contains_iff (h : c.Unstriped slots max) (k : K) :
    c.contains k = true ↔ c.status? k = some .hot ∨ c.status? k = some .cold := by
  obtain ⟨s, hs⟩ := exists_shard h.size_pos (c.hash k)
  rw [status?, contains, hs]
  exact ((h.each _ s hs).2.resident_iff k).symm

/-- A new key makes the cache grow, or the front of the cold queue goes for it. -/
theorem insert_new (h : c.Unstriped slots max) {v : V} (hnew : (c.place k v).2.1 = none) :
    ((c.insert k v).2.1 = [] ∧ (c.place k v).2.2.Still (c.insert k v).2.2) ∨
    ∃ r, (c.insert k v).2.1 = [⟨.evict, r⟩] ∧ (c.place k v).2.2.status? r.key = some .cold ∧
      (c.place k v).2.2.coldFront? 0 = some r.key ∧ slots + 2 ≤ (c.place k v).2.2.stored ∧
      ∃ s s', (c.place k v).2.2.shards[0]? = some s ∧ (c.insert k v).2.2.shards[0]? = some s' ∧
        s'.memory = (Lirs.pop s.memory).2 := by
  have hcases := h.insert_cases k v
  have hslots := h.slots_lt
  have hsetup := c.sameSetup_place k v
  have heach := h.each_fits.place (kept_fits c.hash c.shardOf ratio slots) k v
  generalize (c.insert k v).2.1 = out, (c.insert k v).2.2 = c' at hcases ⊢
  cases hcases with
  | replace hold _ =>
    rw [hnew] at hold
    cases hold
  | grow _ _ hstill => exact Or.inl ⟨rfl, hstill⟩
  | @evict c₁ c₂ _ r _ _ hstored hshards hhash _ htake hstill =>
    have hone : c₁.shards.size = 1 := by rw [hshards, hsetup.size, h.one]
    have hstored₁ : c₁.stored = (c.place k v).2.2.stored := by rw [stored, stored, hshards]
    rw [← hhash] at heach
    obtain ⟨hcold, hfront, s, s', hs, hs', hmemory⟩ := takeFrom_cold hone
      (fun i t ht => heach i t (hshards ▸ ht)) (by omega) (takeFirst_of_one hone htake)
    refine Or.inr ⟨r, rfl, ?_, ?_, by omega, s, s', hshards ▸ hs, hstill.shards ▸ hs', hmemory⟩
    · rw [status?, shardOf, ← hshards, hsetup.hash, ← hhash]
      exact hcold
    · rw [coldFront?, ← hshards]
      exact hfront

/-- **An insertion gives up the front of the cold queue**, and not the key that came in. -/
theorem ne_of_mem_insert (h : c.Unstriped slots max) {v : V} (hnew : c.contains k = false)
    {d : Departure K V} (hd : d ∈ (c.insert k v).2.1) :
    d.record.key ≠ k ∧ (c.place k v).2.2.status? d.record.key = some .cold ∧
      (c.place k v).2.2.coldFront? 0 = some d.record.key := by
  have hnew := (place_eq_none_iff h.size_pos v).2 hnew
  rcases h.insert_new hnew with ⟨hout, -⟩ | ⟨r, hout, hcold, hfront, hstored, -⟩
  · rw [hout] at hd
    cases hd
  · rw [hout] at hd
    obtain rfl := List.mem_singleton.1 hd
    refine ⟨?_, hcold, hfront⟩
    obtain ⟨s, s', hs, hs', hresident, hmemory⟩ := h.shard_place v hnew
    have hone : (c.place k v).2.2.shards.size = 1 := (c.sameSetup_place k v).size.trans h.one
    obtain ⟨⟨-, hagrees⟩, hfits⟩ :=
      h.each_fits.place (kept_fits c.hash c.shardOf ratio slots) k v 0 s' hs'
    rw [stored_of_one hone hs'] at hstored
    have hsound : Lirs.Sound s'.memory := hagrees.sound
    have hlength := Shard.two_le_length_cold hagrees hfits hstored
    have hrecent := (h.each 0 s hs).2.sound.recent_push (h.fits 0 s hs) hresident
    rw [← hmemory] at hrecent
    rw [coldFront?, hs'] at hfront
    exact hsound.ne_of_recent hlength hrecent hfront

/-! ### Scans -/

/-- **A key of which nothing is known leaves the hot keys hot.** -/
theorem hot_insert (h : c.Unstriped slots max) (v : V) (hk : c.status? k = none)
    (ha : c.status? a = some .hot) : (c.insert k v).2.2.status? a = some .hot := by
  have hinsert : (c.perform (.insert k v)).2.2 = (c.insert k v).2.2 := rfl
  have hone := (h.perform (.insert k v)).one
  rw [hinsert] at hone
  have hnew : (c.place k v).2.1 = none := by
    rw [place_eq_none_iff h.size_pos, ← Bool.not_eq_true, h.contains_iff, hk]
    simp
  obtain ⟨s, s₁, hs, hs₁, -, hpush⟩ := h.shard_place v hnew
  rw [status?_of_one h.one hs] at hk ha
  have hhot : (Lirs.status s₁.memory).get? a = some .hot := by
    rw [hpush]
    exact Lirs.hot_push_of_unknown hk ha
  rcases h.insert_new hnew with ⟨-, hstill⟩ | ⟨r, -, -, hfront, -, s₂, s', hs₂, hs', hpop⟩
  · rw [status?_of_one hone (hstill.shards ▸ hs₁)]
    exact hhot
  · obtain rfl : s₁ = s₂ := Option.some.inj (hs₁.symm.trans hs₂)
    obtain ⟨⟨-, hagrees⟩, -⟩ :=
      h.each_fits.place (kept_fits c.hash c.shardOf ratio slots) k v 0 s₁ hs₁
    have hsound : Lirs.Sound s₁.memory := hagrees.sound
    rw [coldFront?, hs₁] at hfront
    rw [status?_of_one hone hs', hpop]
    exact hsound.hot_pop hfront hhot

end Unstriped

/-- Records are inserted under keys of which nothing is known at the time. -/
inductive Scan : Cache (.lirs K ratio) V → Cache (.lirs K ratio) V → Prop
  | start (c : Cache (.lirs K ratio) V) : Scan c c
  | next {c c' : Cache (.lirs K ratio) V} {k : K} (v : V) : Scan c c' → c'.status? k = none →
      Scan c (c'.perform (.insert k v)).2.2

/-- **Hot keys survive a scan.** -/
theorem Scan.hot (hscan : Scan c c') (h : c.Unstriped slots max) (ha : c.status? a = some .hot) :
    c'.Unstriped slots max ∧ c'.status? a = some .hot := by
  induction hscan with
  | start => exact ⟨h, ha⟩
  | next v _ hk ih => exact ⟨ih.1.perform _, ih.1.hot_insert v hk ih.2⟩

end Cache

/-- A bound that settings ask for is not zero. -/
theorem Controller.maxEntries_pos {config : Config} {controller : Controller}
    (h : create config = .ok controller) (hbounded : config.order.isBounded = true) :
    0 < config.maxEntries.toNat := by
  refine Nat.pos_of_ne_zero fun hzero => ?_
  have hmax : config.maxEntries = 0 := UInt64.toNat.inj hzero
  rw [create, Config.validate, hbounded, hmax] at h
  cases h

namespace Cache

variable {c : Cache (.lirs K ratio) V}

/-- A new cache with one shard has fewer hot slots than room. -/
theorem unstriped_of_create {config : Config} {controller : Controller} {hash : K → UInt64}
    (hcontroller : Controller.create config = .ok controller)
    (hbounded : config.order.isBounded = true)
    (hcreate : create (.lirs K ratio) V 1 controller hash = .ok c) :
    c.Unstriped (Lirs.hotSlotsFor config.maxEntries.toNat ratio) config.maxEntries.toNat where
  toSteady := steady_of_create (Lirs.tracking ratio) hcontroller hbounded hcreate
  one := by rw [shards_of_create hcreate, Array.size_replicate]
  fits i s hs := by
    have hcapacity : shardCapacity controller.config 1 = config.maxEntries.toNat := by
      rw [Controller.create_config hcontroller, shardCapacity, if_pos hbounded, Nat.div_one,
        Nat.add_sub_cancel]
    rw [shards_of_create hcreate, hcapacity, Array.getElem?_replicate] at hs
    split at hs
    · obtain rfl := Option.some.inj hs
      exact Lirs.fits_init _ _
    · cases hs
  slots_lt := Lirs.hotSlotsFor_lt (Controller.maxEntries_pos hcontroller hbounded) ratio

/-- A cache for three records, of which two may be hot, in one shard.  All keys have the same
hash. -/
def forThree : Cache (.lirs Nat 0.5) Nat where
  shards := .replicate 1 (.init (.lirs Nat 0.5) Nat 3)
  shared := ()
  controller := ⟨{ maxEntries := 3, wakeUpIntervalMillis := 0, order := .lirs }, true, none, true⟩
  len := 0
  cursor := 0
  metrics := {}
  created := 0
  hash _ := 7

/-- The controller of this cache is one that its settings allow. -/
theorem controller_forThree :
    Controller.create forThree.controller.config = .ok forThree.controller := rfl

/-- This cache is made as caches are. -/
theorem create_forThree :
    create (.lirs Nat 0.5) Nat 1 forThree.controller (fun _ => 7) = .ok forThree := rfl

/-- The same cache with three records, of which the last one is cold. -/
def threeOfThree : Cache (.lirs Nat 0.5) Nat :=
  (((forThree.perform (.insert 1 10)).2.2.perform (.insert 2 20)).2.2.perform (.insert 3 30)).2.2

end Cache

/-! ### Sessions -/

namespace Course

variable {P : Call (.lirs K ratio) V → Prop} {c₀ : Cache (.lirs K ratio) V}
  {p : Point (.lirs K ratio) V}

/-- Whatever happened, a cache of that kind is still one. -/
theorem unstriped (h₀ : c₀.Unstriped slots max) (h : Course P c₀ p) :
    p.cache.Unstriped slots max := by
  induction h with
  | start => exact h₀
  | ask _ _ ih => exact ih
  | perform _ ih => exact ih.perform _
  | tell _ _ _ ih => exact ih

/-- **A cache with one shard never gives up a hot key.**  At every point of a session that does not
stop the cache:

1. whenever a record is given up on a claim, its key is cold and at the front of the cold queue;
2. the calls that give up records are insertions, each gives up the key that is at the front of the
cold queue when the new record was stored, and that is not the key of the new record;
3. keys inserted when nothing is known of them, as many as one likes, leave every hot key hot and in
the cache. -/
theorem hot_stay {config : Config} {controller : Controller} {hash : K → UInt64}
    (hcontroller : Controller.create config = .ok controller)
    (hbounded : config.order.isBounded = true)
    (hcreate : Cache.create (.lirs K ratio) V 1 controller hash = .ok c₀)
    (h : Course (fun x => x ≠ .stop) c₀ p) :
    (∀ c why start limit out i rest r c', p.Passes c (.holding why start limit out (i :: rest)) →
      c.takeFrom i = (some r, c') →
      c.status? r.key = some .cold ∧ c.coldFront? i = some r.key) ∧
    (∀ x, ∀ d ∈ (p.cache.perform x).2.1, d.reason = .evict → ∃ k v, x = .insert k v ∧
      d.record.key ≠ k ∧ (p.cache.place k v).2.2.status? d.record.key = some .cold ∧
      (p.cache.place k v).2.2.coldFront? 0 = some d.record.key) ∧
    ∀ c, Cache.Scan p.cache c → ∀ k, p.cache.status? k = some .hot →
      c.status? k = some .hot ∧ c.contains k = true := by
  have h₀ := Cache.unstriped_of_create hcontroller hbounded hcreate
  have hp := h.unstriped h₀
  refine ⟨?_, ?_, ?_⟩
  · intro c why start limit out i rest r c' hpasses htake
    have hstored := (h.bounded (.lirs ratio) hcontroller hbounded hcreate).2 c why start limit out i
      rest r c' hpasses htake
    obtain ⟨hshape, heach⟩ := h.passes_each (Cache.kept_fits c₀.hash c₀.shardOf ratio _)
      h₀.each_fits hpasses
    rw [← hshape.hash] at heach
    have hslots := h₀.slots_lt
    obtain ⟨hcold, hfront, -⟩ :=
      Cache.takeFrom_cold (hshape.size.trans h₀.one) heach (by omega) htake
    exact ⟨hcold, hfront⟩
  · intro x d hd hreason
    have hcause := Cache.cause_of_mem_perform hp.size_pos hd
    cases hcause with
    | crowded hnew _ => exact ⟨_, _, rfl, hp.ne_of_mem_insert hnew hd⟩
    | @swept r _ =>
      have hnone : ⟨.evict, r⟩ ∈ p.cache.sweep.2.1 := hd
      rw [hp.sweep_eq.2.1] at hnone
      cases hnone
    | replaced _ _ => cases hreason
    | removed _ => cases hreason
    | cleared => cases hreason
  · intro c hscan k hk
    obtain ⟨hc, hhot⟩ := hscan.hot hp hk
    exact ⟨hhot, (hc.contains_iff k).2 (Or.inl hhot)⟩

/-- In a session with a cache for three records, three are stored, and a fourth one is about to be. -/
theorem exists_full {P : Call (.lirs Nat 0.5) Nat → Prop} (hP : ∀ k v, P (.insert k v)) :
    ∃ p, Course P .forThree p ∧ p.cache = .threeOfThree ∧ p.agenda = [.call (.insert 4 40)] := by
  have h₁ := perform (ask (hP 1 10) (start : Course P .forThree _))
  rw [show (Cache.forThree.perform (.insert 1 10)).2.1 = [] by decide +kernel] at h₁
  have h₂ := perform (ask (hP 2 20) h₁)
  rw [show ((Cache.forThree.perform (.insert 1 10)).2.2.perform (.insert 2 20)).2.1 = [] by
    decide +kernel] at h₂
  have h₃ := perform (ask (hP 3 30) h₂)
  rw [show (((Cache.forThree.perform (.insert 1 10)).2.2.perform (.insert 2 20)).2.2.perform
    (.insert 3 30)).2.1 = [] by decide +kernel] at h₃
  exact ⟨_, ask (hP 4 40) h₃, rfl, rfl⟩

/-- The fourth record drives out the third, which is cold, and leaves the first, which is hot. -/
theorem hot_stay_full :
    ∃ p c c', Course (fun x => x ≠ .stop) .forThree p ∧ p.cache = .threeOfThree ∧
      p.Passes c (.holding (.insertion ⟨4, 40, 7, 3⟩) 0 (some 8) [] [0]) ∧
      c.takeFrom 0 = (some ⟨3, 30, 7, 2⟩, c') ∧
      c.status? 3 = some .cold ∧ c.coldFront? 0 = some 3 ∧
      ⟨.evict, ⟨3, 30, 7, 2⟩⟩ ∈ (p.cache.perform (.insert 4 40)).2.1 ∧
      (∃ k v, (.insert 4 40 : Call (.lirs Nat 0.5) Nat) = .insert k v ∧ 3 ≠ k ∧
        (p.cache.place k v).2.2.status? 3 = some .cold ∧
        (p.cache.place k v).2.2.coldFront? 0 = some 3) ∧
      Cache.Scan p.cache (p.cache.perform (.insert 4 40)).2.2 ∧ p.cache.status? 1 = some .hot ∧
      (p.cache.perform (.insert 4 40)).2.2.status? 1 = some .hot ∧
      (p.cache.perform (.insert 4 40)).2.2.contains 1 = true := by
  obtain ⟨p, h, hp, hagenda⟩ := exists_full (P := fun x => x ≠ .stop) fun _ _ h => by cases h
  obtain ⟨hcold, hevicted, hhot⟩ := h.hot_stay Cache.controller_forThree rfl Cache.create_forThree
  obtain ⟨c, halone, htaken⟩ : ∃ c, Stage.Alone (.threeOfThree, .asked (.insert 4 40))
      (c, .holding (.insertion ⟨4, 40, 7, 3⟩) 0 (some 8) [] [0]) ∧
      (c.takeFrom 0).1 = some ⟨3, 30, 7, 2⟩ :=
    ⟨_, .head (.head (.head (.refl _))), by decide +kernel⟩
  have hpasses : p.Passes c (.holding (.insertion ⟨4, 40, 7, 3⟩) 0 (some 8) [] [0]) :=
    ⟨_, _, hagenda, hp ▸ halone⟩
  have htake : c.takeFrom 0 = (some ⟨3, 30, 7, 2⟩, (c.takeFrom 0).2) := by rw [← htaken]
  have hmem : ⟨.evict, ⟨3, 30, 7, 2⟩⟩ ∈ (p.cache.perform (.insert 4 40)).2.1 := by
    rw [hp]
    decide +kernel
  have hunknown : p.cache.status? 4 = none := by
    rw [hp]
    decide +kernel
  have hfirst : p.cache.status? 1 = some .hot := by
    rw [hp]
    decide +kernel
  have hscan := Cache.Scan.next 40 (.start p.cache) hunknown
  obtain ⟨hc, hf⟩ := hcold c _ _ _ _ _ _ _ _ hpasses htake
  obtain ⟨hstay, hin⟩ := hhot _ hscan 1 hfirst
  exact ⟨p, c, _, h, hp, hpasses, htake, hc, hf, hmem, hevicted _ _ hmem rfl, hscan, hfirst, hstay,
    hin⟩

end Course
end ClusterCache
