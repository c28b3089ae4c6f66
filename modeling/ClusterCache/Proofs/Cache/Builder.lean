/-
# A cache that was just made

What is claimed of the runs of a cache begins here: a new cache has shards, no records and a count of
zero, its controller runs (`Controller.create_running`), and every shard agrees with its strategy
(`Cache.Fresh.each_agrees`).
-/

import ClusterCache.Cache.Builder
import ClusterCache.Proofs.Cache.Step

namespace ClusterCache

namespace Controller

variable {config : Config} {controller : Controller}

/-- Whoever gets a controller gets a running one with the settings given, and no sweeper yet. -/
theorem create_eq_ok (h : create config = .ok controller) :
    controller = ⟨config, true, none, true⟩ := by
  unfold create at h
  rcases hv : config.validate with e | u <;> rw [hv] at h <;> cases h
  rfl

/-- A controller has the settings that it was made for. -/
theorem create_config (h : create config = .ok controller) : controller.config = config := by
  rw [create_eq_ok h]

/-- A controller runs from the start. -/
theorem create_running (h : create config = .ok controller) : controller.running = true := by
  rw [create_eq_ok h]

/-- A controller that starts keeps its settings. -/
theorem start_config (c : Controller) : c.start.config = c.config := by
  unfold start
  split <;> rfl

/-- Starting the sweeps does not change whether a controller runs. -/
theorem start_running (c : Controller) : c.start.running = c.running := by
  unfold start
  split <;> rfl

end Controller

namespace Cache

variable {K V : Type} [DecidableEq K] {S : Strategy K} {c : Cache S V}

/-- A cache that nothing was asked of yet. -/
structure Fresh (c : Cache S V) : Prop where
  size : 0 < c.shards.size
  shard : ∀ (i : Nat) s, c.shards[i]? = some s → ∃ capacity, s = .init S V capacity
  len : c.len = 0
  created : c.created = 0

section create

variable {shards : Nat} {config : Config} {controller : Controller} {hash : K → UInt64}

/-- Whoever gets a cache gets a fresh one, with the hash and the controller given. -/
theorem create_eq_ok (h : create S V shards controller hash = .ok c) :
    c.Fresh ∧ c.hash = hash ∧ c.controller = controller.start := by
  unfold create at h
  split at h
  · cases h
  · rename_i hshards
    obtain rfl := Except.ok.inj h
    refine ⟨⟨?_, ?_, rfl, rfl⟩, rfl, rfl⟩
    · rw [Array.size_replicate]
      omega
    · intro i s hs
      rw [Array.getElem?_replicate] at hs
      split at hs
      · exact ⟨_, (Option.some.inj hs).symm⟩
      · cases hs

/-- A new cache runs. -/
theorem create_isRunning (hcontroller : Controller.create config = .ok controller)
    (h : create S V shards controller hash = .ok c) : c.isRunning = true := by
  rw [isRunning, (create_eq_ok h).2.2, Controller.start_running]
  exact Controller.create_running hcontroller

/-- A new cache has the bound of its settings, if their order sets one. -/
theorem create_maxEntries (hcontroller : Controller.create config = .ok controller)
    (hbounded : config.order.isBounded = true) (h : create S V shards controller hash = .ok c) :
    c.maxEntries = some config.maxEntries.toNat := by
  rw [maxEntries, (create_eq_ok h).2.2, Controller.start_config,
    Controller.create_config hcontroller, if_pos hbounded]

end create

namespace Fresh

/-- A new cache holds no record. -/
theorem stored (h : c.Fresh) : c.stored = 0 := by
  refine stored_eq_zero fun i s hs => ?_
  obtain ⟨capacity, rfl⟩ := h.shard i s hs
  rfl

/-- A new cache has no records to list. -/
theorem records (h : c.Fresh) : c.records = [] :=
  List.eq_nil_of_length_eq_zero ((stored_eq_length c).symm.trans h.stored)

/-- In a new cache no record is out of its shard. -/
theorem each_filed (h : c.Fresh) : c.Each fun i s => s.Filed c.hash c.shardOf i := by
  intro i s hs
  obtain ⟨capacity, rfl⟩ := h.shard i s hs
  exact fun r hr => nomatch hr

/-- Every shard of a new cache is filed and agrees with its strategy. -/
theorem each_agrees (h : c.Fresh) (T : S.Tracking) :
    c.Each fun i s => s.Filed c.hash c.shardOf i ∧ s.Agrees c.hash T := by
  intro i s hs
  refine ⟨h.each_filed i s hs, ?_⟩
  obtain ⟨capacity, rfl⟩ := h.shard i s hs
  exact .init c.hash T capacity

end Fresh

/-- A cache for one record, in two shards, that gives up the record used longest ago.  All keys have
the same hash. -/
def forOne : Cache (.lru Nat) Nat where
  shards := .replicate 2 (.init (.lru Nat) Nat 1)
  shared := ()
  controller := ⟨{ maxEntries := 1, wakeUpIntervalMillis := 0, order := .lru }, true, none, true⟩
  len := 0
  cursor := 0
  metrics := {}
  created := 0
  hash _ := 7

/-- The controller of this cache is one that its settings allow. -/
theorem controller_forOne :
    Controller.create forOne.controller.config = .ok forOne.controller := rfl

/-- This cache is made as caches are. -/
theorem create_forOne :
    create (.lru Nat) Nat 2 forOne.controller (fun _ => 7) = .ok forOne := rfl

end Cache

/-- Whoever gets a cache from a builder gets one that was made with the settings gathered. -/
theorem Builder.build_eq_ok {K V : Type} [DecidableEq K] [Hashable K] {b : Builder}
    {hash : K → UInt64} {c : Cache (b.config.strategy K) V} (h : b.build K V hash = .ok c) :
    ∃ controller, Controller.create b.config = .ok controller ∧
      Cache.create (b.config.strategy K) V b.shardCount controller hash = .ok c := by
  unfold build at h
  split at h
  · cases h
  · exact ⟨_, ‹_›, h⟩

end ClusterCache
