/-
# A cache that gives nobody up

A cache that is stopped, or has no bound, keeps every record until it is replaced, taken out or
cleared away.  Between calls such a cache is *calm* (`Cache.Calm`), and stays so whatever is asked of
it (`Cache.Calm.perform`).

A calm cache is a plain map (`Cache.Mirrors`): whatever the number of its shards, its hash and its
strategy, each call shows what it shows of the map of its records (`Cache.Mirrors.respond`).
-/

import ClusterCache.Proofs.Cache.PlainMap
import ClusterCache.Proofs.Cache.Refusal

namespace ClusterCache
namespace Cache

variable {K V : Type} [DecidableEq K] {S : Strategy K} {c c' : Cache S V} {k : K}
  {r : Record K V}

/-! ### What is found under a key -/

/-- A cache contains the keys that it finds. -/
theorem contains_eq_isSome_lookup (c : Cache S V) (k : K) :
    c.contains k = (c.lookup k).1.isSome := by
  unfold Cache.contains Cache.lookup
  cases hs : c.shards[c.shardOf (c.hash k)]? with
  | none => simp only [hs, Option.isSome_none]
  | some s =>
    simp only [hs, Shard.lookup_fst]
    rfl

/-- The record that a removal takes out is the one that a lookup finds. -/
theorem detach_fst (c : Cache S V) (k : K) : (c.detach k).1 = (c.lookup k).1 := by
  cases hs : c.shards[c.shardOf (c.hash k)]? with
  | none =>
    unfold Cache.detach Cache.lookup
    simp only [hs]
  | some s => rw [detach_of_shard hs, lookup_of_shard hs]

/-- The record that an insertion replaces is the one that a lookup finds. -/
theorem place_old (hc : 0 < c.shards.size) (k : K) (v : V) :
    (c.place k v).2.1 = (c.lookup k).1 := by
  obtain ⟨s, hs⟩ := exists_shard hc (c.hash k)
  rw [place_of_shard v hs, lookup_of_shard hs]
  exact s.place_fst (c.newRecord k v)

/-! ### Calm caches -/

/-- Between calls the records are where they belong, the count is right, and there is no bound to keep
to. -/
structure Calm (c : Cache S V) : Prop where
  size_pos : 0 < c.shards.size
  filed : c.Each fun i s => s.Filed c.hash c.shardOf i
  len_eq : c.len = c.stored
  idle : c.isRunning = true → c.maxEntries = none

/-- Settings without an order set no bound. -/
theorem maxEntries_of_unbounded (h : c.controller.config.order = .none) : c.maxEntries = none := by
  rw [maxEntries, h]
  rfl

/-- Without a bound nobody is given up. -/
theorem evictOverflow_of_unbounded (h : c.maxEntries = none) (start limit : Nat) :
    c.evictOverflow start limit = ([], c) := by
  have hclaim : c.claim = none := claim_eq_none_iff.2 fun max hmax => by rw [h] at hmax; cases hmax
  cases limit with
  | zero => rfl
  | succ limit => rw [evictOverflow, hclaim]

/-- A cache that does not run is never started again. -/
theorem isRunning_of_perform {x : Call S V} (h : (c.perform x).2.2.isRunning = true) :
    c.isRunning = true := by
  by_cases hx : x = .stop
  · subst hx
    cases h
  · rwa [(sameSetup_perform hx).isRunning] at h

namespace Calm

/-- **A cache stays calm.** -/
theorem perform (h : c.Calm) (x : Call S V) : (c.perform x).2.2.Calm := by
  have hshape := sameShape_perform c x
  have hbalance := perform_balance h.size_pos x
  have hlen := h.len_eq
  have hfiled := h.filed.perform (Shard.kept_filed c.hash c.shardOf) x
  refine ⟨?_, ?_, ?_, fun hrun => ?_⟩
  · rw [hshape.size]
    exact h.size_pos
  · rw [hshape.hash, hshape.shardOf]
    exact hfiled
  · omega
  · rw [hshape.maxEntries]
    exact h.idle (isRunning_of_perform hrun)

/-- A calm cache reports how many records it holds. -/
theorem size_eq (h : c.Calm) : c.size = c.records.length := by
  have hlen := h.len_eq
  rw [stored_eq_length] at hlen
  rw [size]
  omega

/-- An insertion stores a record under a new key, and that is all. -/
theorem insert_of_none (h : c.Calm) (v : V) (hnone : (c.lookup k).1 = none) :
    c.insert k v = (c.newRecord k v, [],
      (c.place k v).2.2.count fun m => { m with insert := m.insert + 1 }) := by
  have hfst := c.place_fst k v
  have hold := place_old h.size_pos k v
  have hsetup := c.sameSetup_place k v
  unfold Cache.insert
  rcases hp : c.place k v with ⟨r, o, c₁⟩
  rw [hp] at hfst hold hsetup
  obtain rfl : r = c.newRecord k v := hfst
  obtain rfl : o = none := hold.trans hnone
  simp only
  obtain ⟨c₂, hc₂⟩ : ∃ c₂, c₂ = c₁.count fun m => { m with insert := m.insert + 1 } := ⟨_, rfl⟩
  rw [← hc₂]
  split
  · rename_i hrun
    have hmax : c₂.maxEntries = none := by
      rw [hc₂] at hrun ⊢
      exact hsetup.shape.maxEntries.trans (h.idle (hsetup.isRunning.symm.trans hrun))
    rw [evictOverflow_of_unbounded hmax]
    rfl
  · rfl

/-- An insertion of a key that is stored replaces its record, and evicts none. -/
theorem insert_of_some (h : c.Calm) (v : V) (hsome : (c.lookup k).1 = some r) :
    c.insert k v = (c.newRecord k v, departures .replace [r],
      (c.place k v).2.2.count fun m => { m with replace := m.replace + 1 }) := by
  have hfst := c.place_fst k v
  have hold := place_old h.size_pos k v
  unfold Cache.insert
  rcases hp : c.place k v with ⟨r', o, c₁⟩
  rw [hp] at hfst hold
  obtain rfl : r' = c.newRecord k v := hfst
  obtain rfl : o = some r := hold.trans hsome
  rfl

/-- A sweep finds nothing to do, and is counted while the cache runs. -/
theorem sweep (h : c.Calm) :
    c.sweep.1 = 0 ∧ c.sweep.2.1 = [] ∧ c.Still c.sweep.2.2 ∧
      c.sweep.2.2.metrics =
        if c.isRunning then { c.metrics with sweep := c.metrics.sweep + 1 } else c.metrics := by
  unfold Cache.sweep
  by_cases hrun : c.isRunning = true
  · have hmax : c.advance.2.maxEntries = none := h.idle hrun
    rw [if_pos hrun, if_pos hrun]
    simp only [evictOverflow_of_unbounded hmax]
    exact ⟨rfl, rfl, ⟨rfl, rfl, rfl, rfl, rfl⟩, rfl⟩
  · rw [if_neg hrun, if_neg hrun]
    exact ⟨rfl, rfl, .refl c, rfl⟩

end Calm

/-! ### A calm cache and its map -/

variable [Hashable K]

/-- The map has the records of a calm cache, each under its key, and counts what the cache counts. -/
structure Mirrors (c : Cache S V) (m : PlainMap K V) : Prop where
  calm : c.Calm
  records : m.records.values.Perm c.records
  keyed : m.Keyed
  created : m.created = c.created
  hash : m.hash = c.hash
  running : m.running = c.isRunning
  metrics : m.metrics = c.metrics

namespace Mirrors

variable {m : PlainMap K V}

/-- The map finds what the cache finds. -/
theorem found (h : c.Mirrors m) (k : K) : m.records.get? k = (c.lookup k).1 := by
  refine Option.ext fun r => ?_
  rw [lookup_eq_some_iff h.calm.filed, ← h.records.mem_iff, KeyMap.mem_values_iff]
  constructor
  · exact fun hr => ⟨⟨k, hr⟩, h.keyed k r hr⟩
  · rintro ⟨⟨k', hr⟩, rfl⟩
    rwa [h.keyed k' r hr]

/-- The map has as many records as the cache reports. -/
theorem size (h : c.Mirrors m) : c.size = m.records.size := by
  rw [h.calm.size_eq, ← h.records.length_eq, KeyMap.length_values]

/-- The map makes the record that the cache makes. -/
theorem newRecord (h : c.Mirrors m) (k : K) (v : V) : m.newRecord k v = c.newRecord k v := by
  rw [PlainMap.newRecord, Cache.newRecord, h.hash, h.created]

/-- The map still has the records of the cache after the same insertion. -/
theorem place (h : c.Mirrors m) (k : K) (v : V) :
    (m.place k v).records.values.Perm (c.place k v).2.2.records := by
  have hplace := place_perm h.calm.size_pos k v
  have hinsert := m.records.toList_append_values_insert k (m.newRecord k v)
  have hbefore := h.records.cons (m.newRecord k v)
  rw [place_old h.calm.size_pos, ← h.found, ← h.newRecord] at hplace
  -- both drive out the same record
  exact (List.perm_append_left_iff _).1 (hinsert.trans (hbefore.trans hplace.symm))

/-- The map still has the records of the cache after the same removal. -/
theorem erase (h : c.Mirrors m) (k : K) :
    (m.erase k).records.values.Perm (c.detach k).2.records := by
  have hdetach := detach_perm c k
  have herase := m.records.toList_append_values_erase k
  rw [detach_fst, ← h.found] at hdetach
  exact (List.perm_append_left_iff _).1 (herase.trans (h.records.trans hdetach.symm))

/-- A call answers and tells the same on the map, which mirrors the cache again. -/
abbrev Follows (c : Cache S V) (m : PlainMap K V) (x : Call S V) : Prop :=
  (c.perform x).1 = (m.perform x).1 ∧ Departure.Alike id (c.perform x).2.1 (m.perform x).2.1 ∧
    (c.perform x).2.2.Mirrors (m.perform x).2.2

/-- Only the departures, the records and the counters are to be compared; the rest is kept by every
call. -/
theorem follows (h : c.Mirrors m) {x : Call S V} {answer : Answer K V} {ds ds' : List (Departure K V)}
    {m' : PlainMap K V} (hcall : c.perform x = (answer, ds, c'))
    (hmap : m.perform x = (answer, ds', m')) (hds : Departure.Alike id ds ds')
    (hrecords : m'.records.values.Perm c'.records) (hmetrics : m'.metrics = c'.metrics) :
    Follows c m x := by
  have hcalm := h.calm.perform x
  have hkeyed := h.keyed.perform x
  have hcreated := created_perform c x
  have hhash := (sameShape_perform c x).hash
  have hmade : (c.made x).length = x.isInsert.toNat := by cases x <;> rfl
  have hrunning : (m.perform x).2.2.running = (c.perform x).2.2.isRunning := by
    by_cases hx : x = .stop
    · subst hx
      rfl
    · rw [(m.setup_perform x).2.2 hx, (sameSetup_perform hx).isRunning, h.running]
  obtain ⟨hhash', hcreated', -⟩ := m.setup_perform x
  rw [hcall] at hcalm hcreated hhash hrunning
  rw [hmap] at hkeyed hhash' hcreated' hrunning
  rw [Follows, hcall, hmap]
  refine ⟨rfl, hds, hcalm, hrecords, hkeyed, ?_, ?_, hrunning, hmetrics⟩
  · show m'.created = c'.created
    rw [hcreated', hcreated, hmade, h.created]
  · show m'.hash = c'.hash
    rw [hhash', hhash, h.hash]

/-- The map follows an insertion. -/
theorem insert (h : c.Mirrors m) (k : K) (v : V) : Follows c m (.insert k v) := by
  have hfound := h.found k
  cases hr : (c.lookup k).1 with
  | none =>
    rw [hr] at hfound
    have hcall : c.perform (.insert k v) = (.stored (c.newRecord k v), [],
        (c.place k v).2.2.count fun n => { n with insert := n.insert + 1 }) := by
      rw [perform, h.calm.insert_of_none v hr]
    have hmap : m.perform (S := S) (.insert k v) = (.stored (c.newRecord k v), [],
        (m.place k v).count fun n => { n with insert := n.insert + 1 }) := by
      rw [PlainMap.perform, hfound, h.newRecord]
    refine h.follows hcall hmap (.of_map_eq rfl) (h.place k v) ?_
    simp [PlainMap.count, PlainMap.place, count, h.metrics]
  | some r =>
    rw [hr] at hfound
    have hcall : c.perform (.insert k v) = (.stored (c.newRecord k v), departures .replace [r],
        (c.place k v).2.2.count fun n => { n with replace := n.replace + 1 }) := by
      rw [perform, h.calm.insert_of_some v hr]
    have hmap : m.perform (S := S) (.insert k v) = (.stored (c.newRecord k v),
        departures .replace [r],
        (m.place k v).count fun n => { n with replace := n.replace + 1 }) := by
      rw [PlainMap.perform, hfound, h.newRecord]
    refine h.follows hcall hmap (.of_map_eq rfl) (h.place k v) ?_
    simp [PlainMap.count, PlainMap.place, count, h.metrics]

/-- The map follows a lookup. -/
theorem get (h : c.Mirrors m) (k : K) : Follows c m (.get k) := by
  have hfound := h.found k
  have hrecords : m.records.values.Perm (c.lookup k).2.records :=
    h.records.trans (c.lookup_perm k).symm
  have hmetrics := (c.metrics_lookup k).trans h.metrics.symm
  rcases hl : c.lookup k with ⟨_ | r, c₁⟩ <;> rw [hl] at hfound hrecords hmetrics
  · have hcall : c.perform (.get k) =
        (.found none, [], c₁.count fun n => { n with miss := n.miss + 1 }) := by
      rw [perform, Cache.get, hl]
    have hmap : m.perform (S := S) (.get k) =
        (.found none, [], m.count fun n => { n with miss := n.miss + 1 }) := by
      rw [PlainMap.perform, hfound]
    refine h.follows hcall hmap (.of_map_eq rfl) hrecords ?_
    rw [PlainMap.count, count, show c₁.metrics = m.metrics from hmetrics]
  · have hcall : c.perform (.get k) =
        (.found (some r), [], c₁.count fun n => { n with hit := n.hit + 1 }) := by
      rw [perform, Cache.get, hl]
    have hmap : m.perform (S := S) (.get k) =
        (.found (some r), [], m.count fun n => { n with hit := n.hit + 1 }) := by
      rw [PlainMap.perform, hfound]
    refine h.follows hcall hmap (.of_map_eq rfl) hrecords ?_
    rw [PlainMap.count, count, show c₁.metrics = m.metrics from hmetrics]

/-- The map follows a removal. -/
theorem remove (h : c.Mirrors m) (k : K) : Follows c m (.remove k) := by
  have hfound := h.found k
  have hrecords := h.erase k
  have hmetrics := (c.metrics_detach k).trans h.metrics.symm
  rw [← detach_fst] at hfound
  rcases hl : c.detach k with ⟨_ | r, c₁⟩ <;> rw [hl] at hfound hrecords hmetrics
  · have hcall : c.perform (.remove k) = (.found none, [], c₁) := by rw [perform, Cache.remove, hl]
    have hmap : m.perform (S := S) (.remove k) = (.found none, [], m) := by
      rw [PlainMap.perform, hfound]
    refine h.follows hcall hmap (.of_map_eq rfl) ?_ hmetrics.symm
    exact (KeyMap.values_erase_perm_of_get?_eq_none hfound).symm.trans hrecords
  · have hcall : c.perform (.remove k) = (.found (some r), departures .remove [r],
        c₁.count fun n => { n with remove := n.remove + 1 }) := by
      rw [perform, Cache.remove, hl]
    have hmap : m.perform (S := S) (.remove k) = (.found (some r), departures .remove [r],
        (m.erase k).count fun n => { n with remove := n.remove + 1 }) := by
      rw [PlainMap.perform, hfound]
    refine h.follows hcall hmap (.of_map_eq rfl) hrecords ?_
    rw [PlainMap.count, count, PlainMap.erase, show c₁.metrics = m.metrics from hmetrics]

/-- The map follows when the cache is cleared. -/
theorem clear (h : c.Mirrors m) : Follows c m .clear := by
  have hperm := perform_perm h.calm.size_pos (.clear : Call S V)
  have hnone := c.records_clear
  have hmetrics := c.metrics_clear
  simp only [perform] at hperm
  obtain ⟨rs, c', hclear⟩ : ∃ rs c', c.clear = (departures .clear rs, c') := ⟨_, _, rfl⟩
  rw [hclear] at hperm hnone hmetrics
  have hrs : rs.Perm c.records := by
    have hmap : (departures .clear rs).map Departure.record = rs := by
      rw [departures, List.map_map]
      exact List.map_id rs
    rw [hmap] at hperm
    rw [show c'.records = [] from hnone, List.append_nil] at hperm
    exact hperm
  refine h.follows (by rw [perform, hclear]) rfl (.clearing ?_) ?_ (h.metrics.trans hmetrics.symm)
  · rw [List.map_id, List.map_id]
    exact hrs.trans h.records.symm
  · rw [show c'.records = [] from hnone]
    exact .refl []

/-- The map follows a sweep, which evicts nothing. -/
theorem sweep (h : c.Mirrors m) : Follows c m .sweep := by
  obtain ⟨hn, hout, hstill, hmetrics⟩ := h.calm.sweep
  have hcall : c.perform (.sweep : Call S V) = (.count 0, [], c.sweep.2.2) := by
    rw [perform, ← hn, ← hout]
  refine h.follows hcall rfl (.of_map_eq rfl) ?_ ?_
  · rw [hstill.records, PlainMap.sweep]
    split <;> exact h.records
  · rw [hmetrics, PlainMap.sweep, ← h.running, ← h.metrics]
    split <;> rfl

/-- **A calm cache is a map.**  A call shows the same on both, and leaves them so. -/
theorem respond (h : c.Mirrors m) (x : Call S V) :
    (c.respond x).1.Alike id Eq (m.respond x).1 ∧ (c.respond x).2.Mirrors (m.respond x).2 := by
  have hfollows : Follows c m x := by
    cases x with
    | insert k v => exact h.insert k v
    | get k => exact h.get k
    | contains k =>
      refine h.follows rfl ?_ (.of_map_eq rfl) h.records h.metrics
      rw [PlainMap.perform, KeyMap.contains, h.found, contains_eq_isSome_lookup]
    | remove k => exact h.remove k
    | clear => exact h.clear
    | sweep => exact h.sweep
    | stop => exact h.follows rfl rfl (.of_map_eq rfl) h.records h.metrics
    | adjust f => exact h.follows rfl rfl (.of_map_eq rfl) h.records h.metrics
  obtain ⟨hanswer, htold, hnext⟩ := hfollows
  exact ⟨⟨by rw [Cache.respond, hanswer]; rfl, htold, hnext.size, hnext.metrics.symm⟩, hnext⟩

/-- The map shows what a calm cache shows, call by call. -/
theorem showings (h : c.Mirrors m) (xs : List (Call S V)) :
    List.Forall₂ (Showing.Alike id Eq) (ClusterCache.showings Cache.respond c xs)
      (ClusterCache.showings PlainMap.respond m xs) := by
  have hshow := forall₂_showings id (fun _ _ x h => h.respond x) h xs
  rwa [List.map_id] at hshow

/-- The map is still one of the cache after any calls. -/
theorem after (h : c.Mirrors m) (xs : List (Call S V)) :
    (ClusterCache.after Cache.respond c xs).Mirrors (ClusterCache.after PlainMap.respond m xs) := by
  induction xs generalizing c m with
  | nil => exact h
  | cons x xs ih => exact ih (h.respond x).2

end Mirrors

/-- Every calm cache has its map. -/
theorem Calm.exists_mirrors (h : c.Calm) : ∃ m : PlainMap K V, c.Mirrors m := by
  obtain ⟨t, hperm, hkeyed⟩ := KeyMap.exists_values_perm (nodup_key_records h.filed)
  exact ⟨⟨t, c.created, c.hash, c.isRunning, c.metrics⟩, h, hperm, hkeyed, rfl, rfl, rfl, rfl⟩

/-- A new cache without a bound is the map without records. -/
theorem mirrors_of_create {shards : Nat} {controller : Controller} {hash : K → UInt64}
    (hcreate : create S V shards controller hash = .ok c)
    (hnone : controller.config.order = .none) :
    c.Mirrors (.empty V hash controller.running) := by
  obtain ⟨hfresh, hhash, hcontroller⟩ := create_eq_ok hcreate
  have hconfig : c.controller.config = controller.config := by
    rw [hcontroller, Controller.start_config]
  have hcalm : c.Calm := by
    refine ⟨hfresh.size, hfresh.each_filed, ?_, fun _ => maxEntries_of_unbounded (hconfig ▸ hnone)⟩
    rw [hfresh.len, hfresh.stored]
    rfl
  refine ⟨hcalm, ?_, fun k r hr => (by cases hr), hfresh.created.symm, hhash.symm, ?_,
    (metrics_of_create hcreate).symm⟩
  · rw [hfresh.records]
    exact .refl []
  · rw [isRunning, hcontroller, Controller.start_running]
    rfl

/-! ### Two calm caches -/

section

variable {S' : Strategy K} {u : Cache S' V} {f : Record K V → Record K V} {sweeps : Prop}
  {a a' : Metrics}

/-- Two calm caches whose maps match. -/
def Alongside (f : Record K V → Record K V) (sweeps : Prop) (a a' : Metrics) (c : Cache S V)
    (u : Cache S' V) : Prop :=
  ∃ m m' : PlainMap K V, c.Mirrors m ∧ u.Mirrors m' ∧ m.Matches f sweeps a a' m'

/-- **Calm caches with matching records show the same**, if they are asked the same as far as a map
can tell. -/
theorem Alongside.showings (h : Alongside f sweeps a a' c u) (φ : Call S V → Call S' V)
    (hφ : ∀ (m : PlainMap K V) x, m.respond (φ x) = m.respond x) (xs : List (Call S V)) :
    List.Forall₂ (Showing.Alike f (Metrics.Advanced sweeps a a')) (ClusterCache.showings respond c xs)
      (ClusterCache.showings respond u (xs.map φ)) := by
  refine forall₂_showings φ (fun c u x hcu => ?_) h xs
  obtain ⟨m, m', hc, hu, hmatch⟩ := hcu
  obtain ⟨hleft, hcnext⟩ := hc.respond x
  obtain ⟨hmid, hnext⟩ := hmatch.respond x
  obtain ⟨hright, hunext⟩ := hu.respond (φ x)
  rw [hφ] at hright hunext
  have hshown := ((hleft.of_id f).trans hmid).trans_eq (hright.of_id f).symm
  exact ⟨hshown, _, _, hcnext, hunext, hnext⟩

end
end Cache
end ClusterCache
