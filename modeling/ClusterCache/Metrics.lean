/-
# Counters of a cache

How often each kind of thing has happened since the cache was made.
-/

import ClusterCache.Json.Record

namespace ClusterCache

/-- The counters of a cache. -/
structure Metrics where
  /-- Records stored under a new key. -/
  insert : Nat := 0
  /-- Records that took the place of another one. -/
  replace : Nat := 0
  /-- Lookups that found a record. -/
  hit : Nat := 0
  /-- Lookups that found none. -/
  miss : Nat := 0
  /-- Records taken out by their key. -/
  remove : Nat := 0
  /-- Records given up for the bound. -/
  evict : Nat := 0
  /-- Sweeps. -/
  sweep : Nat := 0
  deriving DecidableEq, Repr

namespace Metrics

/-- The names of the counters, in order. -/
def fields : List String := ["insert", "replace", "hit", "miss", "remove", "evict", "sweep"]

/-- The counters as a JSON object. -/
def toJson (m : Metrics) : Json :=
  .obj (fields.zip [.nat m.insert, .nat m.replace, .nat m.hit, .nat m.miss, .nat m.remove,
    .nat m.evict, .nat m.sweep])

/-- Reads the counters; all of them must be there. -/
def ofJson? (j : Json) : Option Metrics := do
  let slots ← j.record? fields
  let counts ← slots.mapM (Json.required Json.natural?)
  match counts.map UInt64.toNat with
  | [insert, replace, hit, miss, remove, evict, sweep] =>
    some { insert, replace, hit, miss, remove, evict, sweep }
  | _ => none

end Metrics
end ClusterCache
