/-
# What can be asked of a cache

A call changes the cache and yields an answer, and it may send records away.  Who listens to a cache
is told of those departures after the cache has changed, in order; a call is over when the last of
them has been told.  `Cache.perform` is the part of a call before the telling.
-/

import ClusterCache.Cache.Eviction

namespace ClusterCache

/-- Something asked of a cache. -/
inductive Call {K : Type} (S : Strategy K) (V : Type) where
  /-- Store a value under a key. -/
  | insert (k : K) (v : V)
  /-- Look a key up. -/
  | get (k : K)
  /-- Tell whether a key has a record; this is no use of the key. -/
  | contains (k : K)
  /-- Take a record out. -/
  | remove (k : K)
  /-- Take all records out. -/
  | clear
  /-- Keep to the bound now. -/
  | sweep
  /-- Stop keeping to the bound. -/
  | stop
  /-- Change what the strategies of the shards remember together. -/
  | adjust (f : S.Shared → S.Shared)

/-- The answer to a call. -/
inductive Answer (K V : Type) where
  /-- The record that was made. -/
  | stored (r : Record K V)
  /-- The record of a key, if there is one. -/
  | found (r : Option (Record K V))
  | flag (b : Bool)
  | count (n : Nat)
  | done

namespace Cache

variable {K V : Type} [DecidableEq K] {S : Strategy K}

/-- Records that leave for the same reason. -/
def departures (reason : Reason) (rs : List (Record K V)) : List (Departure K V) :=
  rs.map fun r => ⟨reason, r⟩

/-- Takes all records out of the shards given, in order; `taken` were taken before, the last one in
front. -/
def clearShards (c : Cache S V) (taken : List (Record K V)) :
    List Nat → List (Record K V) × Cache S V
  | [] => (taken.reverse, c)
  | i :: rest =>
    let (out, c) := c.clearShard i
    clearShards c (out.reverse ++ taken) rest

/-- Takes all records out. -/
def clear (c : Cache S V) : List (Departure K V) × Cache S V :=
  let (out, c) := c.clearShards [] (List.range c.shards.size)
  (departures .clear out, c)

/-- Stores a value under a key.  A record in its way makes room for it and the cache does not grow;
otherwise a running cache keeps to its bound, within limits. -/
def insert (c : Cache S V) (k : K) (v : V) : Record K V × List (Departure K V) × Cache S V :=
  match c.place k v with
  | (r, some old, c) =>
    (r, departures .replace [old], c.count fun m => { m with replace := m.replace + 1 })
  | (r, none, c) =>
    let c := c.count fun m => { m with insert := m.insert + 1 }
    if c.isRunning then
      let (out, c) := c.evictOverflow (c.shardOf r.hash) inlineBatch
      (r, departures .evict out, c.count fun m => { m with evict := m.evict + out.length })
    else (r, [], c)

/-- Looks a key up. -/
def get (c : Cache S V) (k : K) : Option (Record K V) × Cache S V :=
  match c.lookup k with
  | (some r, c) => (some r, c.count fun m => { m with hit := m.hit + 1 })
  | (none, c) => (none, c.count fun m => { m with miss := m.miss + 1 })

/-- Takes a record out. -/
def remove (c : Cache S V) (k : K) : Option (Record K V) × List (Departure K V) × Cache S V :=
  match c.detach k with
  | (some r, c) =>
    (some r, departures .remove [r], c.count fun m => { m with remove := m.remove + 1 })
  | (none, c) => (none, [], c)

/-- Gives up every record above the bound, if the cache is running. -/
def sweep (c : Cache S V) : Nat × List (Departure K V) × Cache S V :=
  if c.isRunning then
    let (start, c) := c.advance
    let (out, c) := c.evictOverflow start c.overflow
    (out.length, departures .evict out, c.count fun m =>
      { m with sweep := m.sweep + 1, evict := m.evict + out.length })
  else (0, [], c)

/-- The part of a call before its departures are told. -/
def perform (c : Cache S V) : Call S V → Answer K V × List (Departure K V) × Cache S V
  | .insert k v =>
    let (r, out, c) := c.insert k v
    (.stored r, out, c)
  | .get k =>
    let (r, c) := c.get k
    (.found r, [], c)
  | .contains k => (.flag (c.contains k), [], c)
  | .remove k =>
    let (r, out, c) := c.remove k
    (.found r, out, c)
  | .clear =>
    let (out, c) := c.clear
    (.done, out, c)
  | .sweep =>
    let (n, out, c) := c.sweep
    (.count n, out, c)
  | .stop => (.done, [], c.stop)
  | .adjust f => (.done, [], { c with shared := f c.shared })

end Cache
end ClusterCache
