/-
# What a load is made of

Writers store records in a bounded cache for a while; then the load waits for the cache to come down
to its bound.  The options say how many writers, for how long, over which keys, and what the cache is
like.  `Options.validate` refuses what cannot run.
-/

import ClusterCache.Cache.Builder

namespace ClusterCache
namespace Load

/-- The options of a load. -/
structure Options where
  /-- The bound of the cache. -/
  maxEntries : UInt64 := 1
  /-- The order in which the cache gives up records. -/
  order : EvictionOrder := .unordered
  /-- The time between two sweeps; no sweeps if it is zero. -/
  wakeUpInterval : Duration := .ofMillis 100
  /-- The number of writers. -/
  writers : UInt64 := 20
  /-- How long the writers write. -/
  duration : Duration := .ofMillis 250
  /-- How long to wait for the cache to come down to its bound. -/
  settleTimeout : Duration := .ofSeconds 60
  /-- Whether the cache is split into shards. -/
  lockStriping : Bool := false
  /-- The number of shards of a cache that is split. -/
  shards : UInt64 := 16
  /-- Keys are drawn from the numbers below this one. -/
  keySpace : UInt64 := 18446744073709551615
  /-- Whether the report is written as JSON. -/
  json : Bool := false

/-- Why options cannot run. -/
inductive OptionsError where
  /-- A bound of no records. -/
  | zeroCapacity (order : EvictionOrder)
  /-- Nobody would write. -/
  | noWriters
  /-- A cache that is split into no shards. -/
  | noShards
  /-- No keys to draw from. -/
  | emptyKeySpace
  deriving DecidableEq, Repr

/-- The error in words. -/
def OptionsError.message : OptionsError → String
  | zeroCapacity order => "\"--max-entries\" must be positive with strategy " ++ order.name
  | noWriters => "\"--writers\" must be positive"
  | noShards => "\"--shards\" must be positive"
  | emptyKeySpace => "\"--key-space\" must be positive"

namespace Options

/-- Refuses options that cannot run, for the first reason that holds. -/
def validate (o : Options) : Except OptionsError Unit :=
  if o.order.isBounded && o.maxEntries = 0 then .error (.zeroCapacity o.order)
  else if o.writers = 0 then .error .noWriters
  else if o.lockStriping && o.shards = 0 then .error .noShards
  else if o.keySpace = 0 then .error .emptyKeySpace
  else .ok ()

/-- The cache that the load runs against. -/
def builder (o : Options) : Builder :=
  ((((Builder.new o.maxEntries).withOrder o.order).withWakeUpInterval o.wakeUpInterval
    ).withLockStriping o.lockStriping).withShards o.shards.toNat

end Options
end Load
end ClusterCache
