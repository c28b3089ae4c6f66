/-
# Whether a new record survives its own insertion

An insertion into a full cache looks for a victim in the shard of the new record first, and this shard
holds at least that record.  So the next victim of this shard goes, and no other
(`Cache.takeFirst_of_shard`), and it is the new record itself if the strategy would name its key next
(`Cache.Steady.insert_fate`).

The strategies that know in which order their keys go (`Ordered`) name the key that came in last only
if no other key of the shard may go before it: the shard was empty, or, with hot keys and cold ones,
all others are hot and the new key cannot be hot as well (`Ordered.pop_push_iff`).  With several shards
that can happen although the cache is full.  With a single shard it cannot, as a full cache is a full
shard then.

So a record that was just stored is found, unless it was *exposed* in that way, and then it is the one
given up (`Session.insert_found`).
-/

import ClusterCache.Proofs.Cache.Order
import ClusterCache.Proofs.Cache.Scan
import ClusterCache.Proofs.Eviction.Lirs.Victim

namespace ClusterCache

variable {K V : Type} [DecidableEq K] {S : Strategy K}

/-! ### The next victim of a shard -/

namespace Shard

variable {s : Shard S V} {k : K} {hash : K → UInt64}

/-- A key that comes to the end of a line is at its head only if it is alone. -/
theorem pop_push_iff_of_line (Q : S.Lining) (hs : s.Agrees hash Q.toTracking)
    (hk : s.find? (hash k) k = none) (sh : S.Shared) :
    (S.pop sh (S.push s.memory k)).1 = some k ↔ s.size = 0 := by
  have hnew : k ∉ Q.line s.memory := fun hmem => by
    have hheld := (hs.mem_line k).1 hmem
    rw [Shard.not_holds_of_find? hk] at hheld
    cases hheld
  rw [Q.pop_fst sh (Q.sound_push k hs.sound), Q.line_push hs.sound hnew, ← hs.length_line,
    List.length_eq_zero_iff]
  cases hline : Q.line s.memory with
  | nil => exact iff_of_true rfl rfl
  | cons b rest =>
    rw [hline] at hnew
    refine iff_of_false (fun hhead => ?_) (List.cons_ne_nil b rest)
    obtain rfl : b = k := Option.some.inj hhead
    exact hnew (List.mem_cons_self ..)

end Shard

namespace Cache

variable {c c' : Cache S V} {s : Shard S V} {r : Record K V} {T : S.Tracking} {max i : Nat} {k : K}

/-- A cache has a record for a key if the shard of the key finds one. -/
theorem contains_of_shard (hs : c.shards[c.shardOf (c.hash k)]? = some s) :
    c.contains k = (s.find? (c.hash k) k).isSome := by
  rw [contains, hs]
  rfl

/-- A round that begins at a shard with records ends there, with its next victim. -/
theorem takeFirst_of_shard (hs : c.shards[i]? = some s) (hagrees : s.Agrees c.hash T)
    (hpos : 0 < s.size) (htake : c.takeFirst (c.round i) = (some r, c')) :
    ∃ a s', (S.pop c.shared s.memory).1 = some a ∧ s.find? (c.hash a) a = some r ∧
      c'.shards[i]? = some s' ∧ s'.table = s.table.erase (c.hash a) a := by
  have hi := (Array.getElem?_eq_some_iff.1 hs).1
  obtain ⟨rest, hround⟩ : ∃ rest, c.round i = i :: rest := by
    obtain ⟨n, hn⟩ := Nat.exists_eq_succ_of_ne_zero (Nat.ne_zero_of_lt hi)
    refine ⟨(List.range n).map fun j => (i + (j + 1)) % c.shards.size, ?_⟩
    rw [round, hn, List.range_succ_eq_map, List.map_cons, List.map_map, ← hn, Nat.add_zero,
      Nat.mod_eq_of_lt hi]
    rfl
  rcases hagrees.evict_eq c.shared with ⟨a, r', hpop, hget, hevict⟩ | ⟨-, hevict⟩
  · rw [hround, takeFirst, takeFrom, hs] at htake
    simp only [hevict] at htake
    obtain ⟨hr, rfl⟩ := Prod.mk.inj htake
    obtain rfl := Option.some.inj hr
    exact ⟨a, _, hpop, hget, Array.getElem?_setIfInBounds_self_of_lt hi, rfl⟩
  · have hzero := (hagrees.evict_eq_none_iff c.shared).1 (by rw [hevict])
    omega

/-- **What becomes of a record that is stored in a running cache.**  Its shard finds it afterwards;
or the key was new, the cache was full and the strategy of the shard named the key next, and then the
record was given up and no other. -/
theorem Steady.insert_fate (h : c.Steady T max) (hrun : c.isRunning = true) (k : K) (v : V) :
    ∃ s s', c.shards[c.shardOf (c.hash k)]? = some s ∧
      (c.insert k v).2.2.shards[c.shardOf (c.hash k)]? = some s' ∧
      ((s'.find? (c.hash k) k = some (c.newRecord k v) ∧ (s.find? (c.hash k) k = none → c.stored = max →
          ∃ sh, (S.pop sh (S.push s.memory k)).1 ≠ some k)) ∨
        s'.find? (c.hash k) k = none ∧ (c.insert k v).2.1 = [⟨.evict, c.newRecord k v⟩] ∧
          s.find? (c.hash k) k = none ∧ c.stored = max ∧
          ∃ sh, (S.pop sh (S.push s.memory k)).1 = some k) := by
  obtain ⟨s, hs⟩ := exists_shard h.size_pos (c.hash k)
  have hagrees := (h.each _ s hs).2
  have hagrees' : (s.place (c.newRecord k v)).2.Agrees c.hash T := hagrees.place rfl
  have hlt := shardOf_lt h.size_pos (c.hash k)
  have hplace := place_of_shard v hs
  have hold : (c.place k v).2.1 = s.find? (c.hash k) k := by rw [hplace, Shard.place_fst]; rfl
  have hstored := stored_of_perm _ [_] (place_perm h.size_pos k v)
  -- the shard with the record in it
  have hshard : (c.place k v).2.2.shards[c.shardOf (c.hash k)]? =
      some (s.place (c.newRecord k v)).2 := by
    rw [hplace]
    exact Array.getElem?_setIfInBounds_self_of_lt hlt
  have hget : (s.place (c.newRecord k v)).2.find? (c.hash k) k = some (c.newRecord k v) := by
    rw [Shard.find?, Shard.place_table, RecordTable.find?_insert]
    exact if_pos ⟨rfl, rfl⟩
  have hcases := h.insert_cases k v
  generalize (c.insert k v).2.1 = out, (c.insert k v).2.2 = c' at hcases ⊢
  cases hcases with
  | @replace old _ hsome hstill =>
    refine ⟨s, _, hs, hstill.shards ▸ hshard, Or.inl ⟨hget, fun hnone => ?_⟩⟩
    rw [hold, hnone] at hsome
    cases hsome
  | grow hnone hroom hstill =>
    refine ⟨s, _, hs, hstill.shards ▸ hshard, Or.inl ⟨hget, fun _ hfull => ?_⟩⟩
    rw [hnone] at hstored
    simp only [Option.toList_none, List.length_nil, List.length_singleton] at hstored
    exact absurd ⟨hrun, by omega⟩ hroom
  | @evict c₁ c₂ _ r hnone _ hover hshards hhash hrun₁ htake hstill =>
    have hnew : s.find? (c.newRecord k v).hash (c.newRecord k v).key = none := hold.symm.trans hnone
    rw [hnone] at hstored
    simp only [Option.toList_none, List.length_nil, List.length_singleton] at hstored
    have hmemory : (s.place (c.newRecord k v)).2.memory = S.push s.memory k := by
      rw [Shard.place_memory, hnew]
      rfl
    have hsize : c₁.shards.size = c.shards.size := by
      rw [hshards, (c.sameSetup_place k v).size]
    have hstart : c₁.shardOf (c.hash k) = c.shardOf (c.hash k) := by rw [shardOf, shardOf, hsize]
    have hpos : 0 < (s.place (c.newRecord k v)).2.size :=
      Nat.pos_of_ne_zero fun hzero => by
        have hempty := hagrees'.tidy.size_eq_zero_iff.1 hzero k
        rw [Shard.find?, hempty] at hget
        cases hget
    rw [hstart] at htake
    rw [← hhash] at hagrees'
    obtain ⟨a, s', hpop, hvictim, hs', htable⟩ :=
      takeFirst_of_shard (hshards ▸ hshard) hagrees' hpos htake
    rw [hmemory] at hpop
    rw [hhash] at hvictim htable
    refine ⟨s, s', hs, hstill.shards ▸ hs', ?_⟩
    rw [Shard.find?, htable, RecordTable.find?_erase_hash]
    by_cases ha : k = a
    · subst ha
      obtain rfl : c.newRecord k v = r := Option.some.inj (hget.symm.trans hvictim)
      exact Or.inr ⟨if_pos rfl, rfl, hnew, by omega, _, hpop⟩
    · refine Or.inl ⟨(if_neg ha).trans hget, fun _ _ => ⟨c₁.shared, fun hk => ha ?_⟩⟩
      exact Option.some.inj (hk.symm.trans hpop)

end Cache

/-- Between calls a cache is steady. -/
theorem Course.steady {P : Call S V → Prop} {c₀ : Cache S V} {p : Point S V} {T : S.Tracking}
    {max : Nat} (h₀ : c₀.Steady T max) (h : Course P c₀ p) :
    p.cache.Steady T max := by
  induction h with
  | start => exact h₀
  | ask _ _ ih => exact ih
  | perform _ ih => exact ih.perform _
  | tell _ _ _ ih => exact ih

variable [Hashable K]

/-! ### Who may be the next victim -/

/-- The strategies that know in which order their keys go. -/
inductive Ordered (K : Type) [DecidableEq K] [Hashable K] : Strategy K → Type
  | lru : Ordered K (.lru K)
  | fifo : Ordered K (.fifo K)
  | lirs (ratio : Float) : Ordered K (.lirs K ratio)

namespace Ordered

/-- They know the keys of their shard. -/
def bounding : {S : Strategy K} → Ordered K S → Bounding K S
  | _, lru => .lru
  | _, fifo => .fifo
  | _, lirs ratio => .lirs ratio

/-- How many keys may be hot in a shard for `capacity` keys. -/
def slots : {S : Strategy K} → Ordered K S → (capacity : Nat) → Nat
  | _, lru, _ => 0
  | _, fifo, _ => 0
  | _, lirs ratio, capacity => Lirs.hotSlotsFor capacity ratio

/-- No more keys are hot than may be. -/
def Fits : {S : Strategy K} → Ordered K S → Nat → S.State → Prop
  | _, lru, _, _ => True
  | _, fifo, _, _ => True
  | _, lirs _, n, s => Lirs.Fits n s

/-- A key would come in as the only cold one: all keys are hot, they take all the slots, and nothing
is known of the key. -/
def OnlyCold : {S : Strategy K} → Ordered K S → S.State → K → Prop
  | _, lru, _, _ => False
  | _, fifo, _, _ => False
  | _, lirs _, s, k =>
    (Lirs.cold s).toList = [] ∧ (Lirs.status s).get? k = none ∧ Lirs.hotSlots s ≤ Lirs.hotCount s

variable {s : Shard S V} {k : K} {n : Nat} {hash : K → UInt64}

/-- **The key that came in last is the next victim** if it is alone in its shard or the only cold key
there, and otherwise not. -/
theorem pop_push_iff (B : Ordered K S) (hs : s.Agrees hash B.bounding.tracking)
    (hf : B.Fits n s.memory) (hk : s.find? (hash k) k = none) (sh : S.Shared) :
    (S.pop sh (S.push s.memory k)).1 = some k ↔ s.size = 0 ∨ B.OnlyCold s.memory k := by
  cases B with
  | lru => exact (Shard.pop_push_iff_of_line Lru.lining hs hk sh).trans (iff_of_eq (or_false _)).symm
  | fifo => exact (Shard.pop_push_iff_of_line Fifo.lining hs hk sh).trans (iff_of_eq (or_false _)).symm
  | lirs ratio =>
    have hsound : Lirs.Sound s.memory := hs.sound
    have hsize := Shard.size_eq_held hs
    have hnew : ¬ Lirs.Resident s.memory k := fun h => by
      have hheld := (hs.resident_iff k).1 h
      rw [Shard.not_holds_of_find? hk] at hheld
      cases hheld
    refine (hsound.pop_push_iff hf hnew).trans ?_
    rw [hsize, Nat.add_eq_zero_iff, List.length_eq_zero_iff, OnlyCold]
    tauto

/-- A shard that holds more keys than may be hot holds a cold one. -/
theorem not_onlyCold (B : Ordered K S) (hs : s.Agrees hash B.bounding.tracking)
    (hf : B.Fits n s.memory) (hsize : n < s.size) : ¬ B.OnlyCold s.memory k := by
  cases B with
  | lru => exact not_false
  | fifo => exact not_false
  | lirs ratio =>
    rintro ⟨hcold, -, -⟩
    have heq := Shard.size_eq_held hs
    have hle : Lirs.hotCount s.memory ≤ n := Lirs.Fits.hotCount hf
    rw [hcold, List.length_nil] at heq
    omega

/-- The operations of a shard keep to the hot slots. -/
theorem kept_fits (B : Ordered K S) (hash : K → UInt64) (home : UInt64 → Nat) (n : Nat) :
    Shard.Kept hash home fun i (s : Shard S V) =>
      (s.Filed hash home i ∧ s.Agrees hash B.bounding.tracking) ∧ B.Fits n s.memory := by
  cases B with
  | lru =>
    exact Shard.kept_memory hash home Lru.tracking (fun _ _ h => h) (fun _ _ h => h) (fun _ h => h)
      (fun _ h => h) fun h => h
  | fifo =>
    exact Shard.kept_memory hash home Fifo.tracking (fun _ _ h => h) (fun _ _ h => h)
      (fun _ h => h) (fun _ h => h) fun h => h
  | lirs ratio => exact Cache.kept_fits hash home ratio n

/-- The strategy of a new shard keeps to its slots. -/
theorem fits_init (B : Ordered K S) (capacity : Nat) :
    B.Fits (B.slots capacity) (Shard.init S V capacity).memory := by
  cases B with
  | lru => trivial
  | fifo => trivial
  | lirs ratio => exact Lirs.fits_init _ _

/-- There are fewer hot slots than there may be records. -/
theorem slots_lt (B : Ordered K S) {capacity : Nat} (h : 0 < capacity) :
    B.slots capacity < capacity := by
  cases B with
  | lru => exact h
  | fifo => exact h
  | lirs ratio => exact Lirs.hotSlotsFor_lt h ratio

end Ordered

/-! ### What becomes of a new record -/

namespace Cache

variable {c : Cache S V} {max : Nat} {k : K}

/-- Storing a record under `k` now gives up that record: the cache is full, and in the shard of the
new key nobody may go before it. -/
structure Exposed (B : Ordered K S) (max : Nat) (c : Cache S V) (k : K) : Prop where
  absent : c.contains k = false
  full : c.size = max
  alone : ∃ s, c.shards[c.shardOf (c.hash k)]? = some s ∧ (s.size = 0 ∨ B.OnlyCold s.memory k)

/-- **A record that is stored in a running cache is found, unless it was exposed**, and then it is
given up and no other. -/
theorem Steady.find?_insert (B : Ordered K S) {n : Nat} (h : c.Steady B.bounding.tracking max)
    (hfits : c.Each fun _ s => B.Fits n s.memory) (hrun : c.isRunning = true) (k : K) (v : V) :
    ∃ s', (c.insert k v).2.2.shards[c.shardOf (c.hash k)]? = some s' ∧
      (¬ c.Exposed B max k → s'.find? (c.hash k) k = some (c.newRecord k v)) ∧
      (c.Exposed B max k → s'.find? (c.hash k) k = none ∧
        (c.insert k v).2.1 = [⟨.evict, c.newRecord k v⟩]) := by
  obtain ⟨s, s', hs, hs', hfate⟩ := h.insert_fate hrun k v
  have hnext := fun hk => B.pop_push_iff (k := k) (h.each _ s hs).2 (hfits _ s hs) hk
  have hsize := h.size_eq
  refine ⟨s', hs', ?_⟩
  rcases hfate with ⟨hfound, hspared⟩ | ⟨hlost, hout, hnew, hfull, sh, hpop⟩
  · refine ⟨fun _ => hfound, fun hexposed => ?_⟩
    obtain ⟨habsent, hfull, t, ht, halone⟩ := hexposed
    obtain rfl : s = t := Option.some.inj (hs.symm.trans ht)
    rw [contains_of_shard hs, Option.isSome_eq_false_iff, Option.isNone_iff_eq_none] at habsent
    obtain ⟨sh, hpop⟩ := hspared habsent (hsize.symm.trans hfull)
    exact absurd ((hnext habsent sh).2 halone) hpop
  · refine ⟨fun hexposed => absurd ?_ hexposed, fun _ => ⟨hlost, hout⟩⟩
    exact ⟨by rw [contains_of_shard hs, hnew]; rfl, hsize.trans hfull, s, hs, (hnext hnew sh).1 hpop⟩

/-- With a single shard nothing is exposed. -/
theorem Steady.not_exposed (B : Ordered K S) {n : Nat} (h : c.Steady B.bounding.tracking max)
    (hfits : c.Each fun _ s => B.Fits n s.memory) (hone : c.shards.size = 1) (hn : n < max) :
    ¬ c.Exposed B max k := by
  rintro ⟨-, hfull, s, hs, halone⟩
  have hsize : s.size = max := by rw [← stored_of_one hone hs, ← h.size_eq, hfull]
  rcases halone with hzero | hcold
  · omega
  · exact B.not_onlyCold (h.each _ s hs).2 (hfits _ s hs) (by omega) hcold

/-- The shards of a new cache keep to their hot slots. -/
theorem fits_of_create (B : Ordered K S) {controller : Controller} {shards : Nat}
    {hash : K → UInt64} (hcreate : create S V shards controller hash = .ok c) :
    c.Each fun _ s => B.Fits (B.slots (shardCapacity controller.config shards)) s.memory := by
  intro i s hs
  rw [shards_of_create hcreate, Array.getElem?_replicate] at hs
  split at hs
  · obtain rfl := Option.some.inj hs
    exact B.fits_init _
  · cases hs

/-- A cache for one record, in two shards, that gives up the record used longest ago.  A key is its own
hash. -/
def forOneSpread : Cache (.lru Nat) Nat where
  shards := .replicate 2 (.init (.lru Nat) Nat 1)
  shared := ()
  controller := ⟨{ maxEntries := 1, wakeUpIntervalMillis := 0, order := .lru }, true, none, true⟩
  len := 0
  cursor := 0
  metrics := {}
  created := 0
  hash := Nat.toUInt64

/-- This cache is made as caches are. -/
theorem create_forOneSpread :
    create (.lru Nat) Nat 2 forOneSpread.controller Nat.toUInt64 = .ok forOneSpread := rfl

end Cache

/-! ### Sessions -/

section

variable {P : Call S V → Prop} {c₀ : Cache S V} {p : Point S V} {max : Nat}

namespace Session

variable {L : Listener S V}

/-- **A new record survives its own insertion, unless it is exposed.**  In a session with a running
cache whose listener makes no calls now, a record that was just stored is in the cache and is what a
lookup finds, but for one case: the key had no record, the cache was full, and in the shard of the key
nobody may go before it.  Then the new record itself is given up, and not found.  With a single shard
this case does not occur. -/
theorem insert_found (B : Ordered K S) {config : Config} {controller : Controller} {shards : Nat}
    {hash : K → UInt64} (hcontroller : Controller.create config = .ok controller)
    (hbounded : config.order.isBounded = true)
    (hcreate : Cache.create S V shards controller hash = .ok c₀)
    (hL : ∀ l d, (L.react l d).2 = []) {s : Session L} {past : List (Call S V × Cache S V)}
    (h : Course P c₀ ⟨s.cache, past, s.log, []⟩) (hrun : s.cache.isRunning = true) (k : K) (v : V) :
    let r := s.cache.newRecord k v
    let s' := (s.call (.insert k v)).2
    (s.call (.insert k v)).1 = .stored r ∧
    (¬ s.cache.Exposed B config.maxEntries.toNat k →
      (s'.call (.contains k)).1 = .flag true ∧ (s'.call (.get k)).1 = .found (some r)) ∧
    (s.cache.Exposed B config.maxEntries.toNat k →
      s'.since s.log.length = [⟨.evict, r⟩] ∧
      (s'.call (.contains k)).1 = .flag false ∧ (s'.call (.get k)).1 = .found none) ∧
    (shards = 1 → ¬ s.cache.Exposed B config.maxEntries.toNat k) := by
  have hsteady : s.cache.Steady B.bounding.tracking config.maxEntries.toNat :=
    h.steady (Cache.steady_of_create _ hcontroller hbounded hcreate)
  have hkept := h.each (B.kept_fits c₀.hash c₀.shardOf _) fun i t ht =>
    ⟨(Cache.create_eq_ok hcreate).1.each_agrees _ i t ht, Cache.fits_of_create B hcreate i t ht⟩
  have hfits : s.cache.Each fun _ t => B.Fits _ t.memory := fun i t ht => (hkept i t ht).2
  obtain ⟨hcache, hsince⟩ := call_of_silent hL s (.insert k v)
  obtain ⟨t, ht, hfound, hlost⟩ := hsteady.find?_insert B hfits hrun k v
  have hsetup : s.cache.SameSetup (s.call (.insert k v)).2.cache :=
    hcache ▸ Cache.sameSetup_perform (by simp)
  -- the shard of the key, as the next call finds it
  have hshard : (s.call (.insert k v)).2.cache.shards[
      (s.call (.insert k v)).2.cache.shardOf ((s.call (.insert k v)).2.cache.hash k)]? = some t := by
    rw [hsetup.hash, hsetup.shape.shardOf, hcache]
    exact ht
  have hcontains : ((s.call (.insert k v)).2.call (.contains k)).1 =
      .flag (t.find? (s.cache.hash k) k).isSome := by
    rw [← hsetup.hash, ← Cache.contains_of_shard hshard]
    rfl
  have hget : ((s.call (.insert k v)).2.call (.get k)).1 =
      .found (t.find? (s.cache.hash k) k) := by
    have hlookup := Cache.get_fst (s.call (.insert k v)).2.cache k
    rw [Cache.lookup_of_shard hshard, hsetup.hash] at hlookup
    exact congrArg Answer.found hlookup
  refine ⟨congrArg Answer.stored (Cache.insert_fst s.cache k v), fun hexposed => ?_,
    fun hexposed => ?_, ?_⟩
  · rw [hcontains, hget, hfound hexposed]
    exact ⟨rfl, rfl⟩
  · obtain ⟨hnone, hout⟩ := hlost hexposed
    rw [hcontains, hget, hnone, hsince]
    exact ⟨hout, rfl, rfl⟩
  · rintro rfl
    have hpos := Controller.maxEntries_pos hcontroller hbounded
    have hcapacity : Cache.shardCapacity controller.config 1 = config.maxEntries.toNat := by
      rw [Controller.create_config hcontroller, Cache.shardCapacity, if_pos hbounded, Nat.div_one,
        Nat.add_sub_cancel]
    have hsize : c₀.shards.size = 1 := by rw [Cache.shards_of_create hcreate, Array.size_replicate]
    refine hsteady.not_exposed B hfits (h.sameShape.size.trans hsize) ?_
    rw [hcapacity]
    exact B.slots_lt hpos

/-- In a cache for one record all of whose keys are in one shard, the second record takes the place of
the first and is found. -/
theorem insert_found_full :
    ∃ (s : Session (.silent (.lru Nat) Nat)) (past : _),
      Course (fun _ => True) .forOne ⟨s.cache, past, s.log, []⟩ ∧ s.cache.isRunning = true ∧
      s.cache.size = 1 ∧ ¬ s.cache.Exposed .lru 1 2 ∧
      ((s.call (.insert 2 20)).2.call (.get 2)).1 = .found (some ⟨2, 20, 7, 1⟩) := by
  have h := Course.perform (Course.ask (x := .insert 1 10) trivial
    (.start : Course (fun _ => True) Cache.forOne _))
  rw [show (Cache.forOne.perform (.insert 1 10)).2.1 = [] by decide +kernel] at h
  obtain ⟨s, hs⟩ : ∃ s : Session (.silent (.lru Nat) Nat),
    s = ⟨(Cache.forOne.perform (.insert 1 10)).2.2, (), []⟩ := ⟨_, rfl⟩
  have hcourse : Course (fun _ => True) .forOne
      ⟨s.cache, [(.insert 1 10, .forOne)], s.log, []⟩ := by
    rw [hs]
    exact h
  have hrun : s.cache.isRunning = true := by
    rw [hs]
    decide +kernel
  have hspared : ¬ s.cache.Exposed .lru 1 2 := by
    rintro ⟨-, -, t, ht, hzero | hcold⟩
    · rw [hs] at ht
      obtain rfl := Option.some.inj ht
      exact absurd hzero (by decide +kernel)
    · exact hcold
  have hfound := (insert_found (L := .silent (.lru Nat) Nat) .lru Cache.controller_forOne rfl
    Cache.create_forOne (fun _ _ => rfl) hcourse hrun 2 20).2.1 hspared
  refine ⟨s, _, hcourse, hrun, by rw [hs]; decide +kernel, hspared, ?_⟩
  rw [hfound.2, hs]
  rfl

/-- In two shards it can be lost: the first record is in the one shard and the second in the other, where
it is the next victim. -/
theorem insert_lost_spread :
    ∃ (s : Session (.silent (.lru Nat) Nat)) (past : _),
      Course (fun x => x ≠ .stop) .forOneSpread ⟨s.cache, past, s.log, []⟩ ∧
      s.cache.isRunning = true ∧
      ((s.call (.insert 4294967296 20)).2.call (.contains 4294967296)).1 = .flag false ∧
      ((s.call (.insert 4294967296 20)).2.call (.get 4294967296)).1 = .found none := by
  have h := Course.perform (Course.ask (x := .insert 0 10) (by simp)
    (.start : Course (fun x => x ≠ .stop) Cache.forOneSpread _))
  rw [show (Cache.forOneSpread.perform (.insert 0 10)).2.1 = [] by decide +kernel] at h
  obtain ⟨s, hs⟩ : ∃ s : Session (.silent (.lru Nat) Nat),
    s = ⟨(Cache.forOneSpread.perform (.insert 0 10)).2.2, (), []⟩ := ⟨_, rfl⟩
  have hcourse : Course (fun x => x ≠ .stop) .forOneSpread
      ⟨s.cache, [(.insert 0 10, .forOneSpread)], s.log, []⟩ := by
    rw [hs]
    exact h
  have hcache := (call_of_silent (fun _ _ => rfl) s (.insert 4294967296 20)).1
  refine ⟨s, _, hcourse, by rw [hs]; decide +kernel, ?_, ?_⟩
  · show Answer.flag ((s.call (.insert 4294967296 20)).2.cache.contains 4294967296) = _
    rw [hcache, hs]
    exact congrArg Answer.flag (by decide +kernel)
  · show Answer.found ((s.call (.insert 4294967296 20)).2.cache.get 4294967296).1 = _
    rw [hcache, hs]
    exact congrArg Answer.found (by decide +kernel)

end Session
end
end ClusterCache
