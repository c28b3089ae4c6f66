/-
# Making a cache

A cache is made from a strategy, a number of shards, a controller whose settings have been checked,
and a hash.  A bound is shared out evenly: each shard prepares for its part of it, rounded up.  A
builder gathers the settings and the number of shards step by step, and makes the cache with the
strategy that the settings name.
-/

import ClusterCache.Cache.Listener
import ClusterCache.Eviction.Gated
import ClusterCache.Eviction.Lirs
import ClusterCache.Eviction.Lru
import ClusterCache.Eviction.Unbounded
import ClusterCache.Eviction.Unordered

namespace ClusterCache

/-- The strategy that the settings name. -/
def Config.strategy (c : Config) (K : Type) [DecidableEq K] [Hashable K] : Strategy K :=
  match c.order with
  | .lru => .lru K
  | .lirs => .lirs K c.lirs.hirRatio
  | .fifo => .fifo K
  | .unordered => .unordered K
  | .none => .unbounded K

namespace Cache

variable {K : Type} [DecidableEq K]

/-- How many records each of `shards` shards prepares for. -/
def shardCapacity (config : Config) (shards : Nat) : Nat :=
  if config.order.isBounded then (config.maxEntries.toNat + shards - 1) / shards else 0

/-- A cache without records, and its sweeper started. -/
def create (S : Strategy K) (V : Type) (shards : Nat) (controller : Controller) (hash : K → UInt64) :
    Except Fault (Cache S V) :=
  if shards = 0 then
    .error ((Fault.config "shards must be greater than zero").withContext "shards" "0")
  else .ok {
    shards := Array.replicate shards (.init S V (shardCapacity controller.config shards))
    shared := S.initShared
    controller := controller.start
    len := 0
    cursor := 0
    metrics := {}
    created := 0
    hash }

/-- The parts of a cache. -/
def outline {V : Type} {S : Strategy K} (c : Cache S V) : Text.Outline :=
  .record "RawCache" [
    ("shards", .nat c.shards.size),
    ("len", .nat c.size),
    ("controller", c.controller.outline)]

/-- The cache as its builder hands it out. -/
def builtOutline {V : Type} {S : Strategy K} (c : Cache S V) : Text.Outline :=
  .tuple "Cache" [c.outline]

end Cache

/-- The settings for a cache that is still to be made. -/
structure Builder where
  config : Config
  shards : Nat

namespace Builder

/-- The number of shards if none is chosen. -/
def defaultShards : Nat := 16

/-- A cache for `maxEntries` records that gives up the one used longest ago. -/
def new (maxEntries : UInt64) : Builder := ⟨{ maxEntries, order := .lru }, defaultShards⟩

/-- Replaces all settings. -/
def withConfig (b : Builder) (config : Config) : Builder := { b with config }

/-- Chooses the order in which records are given up. -/
def withOrder (b : Builder) (order : EvictionOrder) : Builder :=
  { b with config := { b.config with order } }

/-- Chooses the time between two sweeps. -/
def withWakeUpInterval (b : Builder) (d : Duration) : Builder :=
  { b with config := b.config.withWakeUpInterval d }

/-- Chooses whether the cache is split into shards. -/
def withLockStriping (b : Builder) (useLockStriping : Bool) : Builder :=
  { b with config := { b.config with useLockStriping } }

/-- Chooses the number of shards of a cache that is split. -/
def withShards (b : Builder) (shards : Nat) : Builder := { b with shards }

/-- The number of shards that are made. -/
def shardCount (b : Builder) : Nat := if b.config.useLockStriping then b.shards else 1

/-- Makes the cache.  Settings that cannot be used are refused first, then a number of shards. -/
def build (b : Builder) (K V : Type) [DecidableEq K] [Hashable K] (hash : K → UInt64) :
    Except Fault (Cache (b.config.strategy K) V) :=
  match Controller.create b.config with
  | .error e => .error e
  | .ok controller => Cache.create _ V b.shardCount controller hash

end Builder
end ClusterCache
