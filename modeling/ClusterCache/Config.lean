/-
# Settings of a bounded cache

The bound, the order in which records are given up, how often a background sweep looks after the
bound, and whether the cache is split into shards.  `Config.validate` tells which settings can be
used; a cache is never made from others.
-/

import ClusterCache.Duration
import ClusterCache.Fault
import ClusterCache.Json.Record
import ClusterCache.Json.Printer

namespace ClusterCache

open Text (Outline)

/-- The order in which a cache gives up its records. -/
inductive EvictionOrder where
  /-- The one used longest ago first. -/
  | lru
  /-- Cold ones before hot ones. -/
  | lirs
  /-- The oldest first. -/
  | fifo
  /-- In no particular order. -/
  | unordered
  /-- Never; the cache has no bound. -/
  | none
  deriving DecidableEq, Repr

namespace EvictionOrder

/-- All orders. -/
def all : List EvictionOrder := [lru, lirs, fifo, unordered, none]

/-- The name of an order. -/
def name : EvictionOrder → String
  | lru => "LRU"
  | lirs => "LIRS"
  | fifo => "FIFO"
  | unordered => "UNORDERED"
  | none => "NONE"

/-- The order in an outline. -/
def word : EvictionOrder → String
  | lru => "Lru"
  | lirs => "Lirs"
  | fifo => "Fifo"
  | unordered => "Unordered"
  | none => "None"

/-- Whether records are given up at all. -/
def isBounded (o : EvictionOrder) : Bool := o ≠ none

/-- The order with this name, exactly as written. -/
def ofName? (s : String) : Option EvictionOrder := all.find? fun o => o.name = s

/-- The order with this name in upper or lower case; only the case of ASCII letters is free. -/
def parse (s : String) : Except Fault EvictionOrder :=
  match all.find? fun o => o.name.toLower = s.toLower with
  | some o => .ok o
  | Option.none => .error ((Fault.config "unknown eviction strategy").withContext "given" s)

/-- The order as its name. -/
def toJson (o : EvictionOrder) : Json := .string o.name

/-- Reads an order. -/
def ofJson? (j : Json) : Option EvictionOrder := j.choice?.bind ofName?

end EvictionOrder

/-- What only the order `lirs` asks for. -/
structure LirsConfig where
  /-- The share of a shard that is kept for cold records. -/
  hirRatio : Float := 0.01

namespace LirsConfig

/-- Refuses a share that is not strictly between nothing and all. -/
def validate (c : LirsConfig) : Except Fault Unit :=
  if 0.0 < c.hirRatio && c.hirRatio < 1.0 then .ok ()
  else .error ((Fault.config "lirs hir ratio must be in (0, 1)").withContext
    "hir_ratio" (Decimal.plain.text c.hirRatio))

/-- The parts of the settings. -/
def outline (c : LirsConfig) : Outline := .record "LirsConfig" [("hir_ratio", .float c.hirRatio)]

/-- The settings as a JSON object. -/
def toJson (c : LirsConfig) : Json := .obj [("hir_ratio", .float c.hirRatio)]

/-- Reads the settings; what is missing has its default. -/
def ofJson? (j : Json) : Option LirsConfig := do
  match ← j.record? ["hir_ratio"] with
  | [ratio] => some { hirRatio := ← Json.optional Json.double? ({} : LirsConfig).hirRatio ratio }
  | _ => none

end LirsConfig

/-- The settings of a cache. -/
structure Config where
  /-- The most records; not used without an order. -/
  maxEntries : UInt64 := 0
  /-- The milliseconds between two sweeps; no sweeps unless it is positive. -/
  wakeUpIntervalMillis : Int64 := 5000
  /-- The order in which records are given up. -/
  order : EvictionOrder := .none
  /-- Whether the cache is split into shards. -/
  useLockStriping : Bool := true
  /-- What only the order `lirs` asks for. -/
  lirs : LirsConfig := {}

namespace Config

/-- The time between two sweeps, if there are sweeps. -/
def wakeUpInterval (c : Config) : Option Duration :=
  if 0 < c.wakeUpIntervalMillis then some (.ofMillis c.wakeUpIntervalMillis.toUInt64) else none

/-- Sweeps every `d`: in whole milliseconds, as many as fit. -/
def withWakeUpInterval (c : Config) (d : Duration) : Config :=
  { c with wakeUpIntervalMillis := Int64.ofInt (min d.millis (0x7fffffffffffffff) : Nat) }

/-- Refuses a bound of no records, and the settings that the order refuses. -/
def validate (c : Config) : Except Fault Unit :=
  if c.order.isBounded && c.maxEntries = 0 then
    .error (((Fault.config "max entries must be positive when eviction is enabled").withContext
      "strategy" c.order.name).withContext "max_entries" (toString c.maxEntries.toNat))
  else if c.order = .lirs then c.lirs.validate
  else .ok ()

/-- The parts of the settings. -/
def outline (c : Config) : Outline :=
  .record "EvictionConfig" [
    ("max_entries", .nat c.maxEntries.toNat),
    ("wake_up_interval_millis", .word (toString c.wakeUpIntervalMillis.toInt)),
    ("strategy", .word c.order.word),
    ("use_lock_striping", .bool c.useLockStriping),
    ("lirs", c.lirs.outline)]

/-- The settings as a JSON object. -/
def toJson (c : Config) : Json :=
  .obj [
    ("max_entries", .nat c.maxEntries.toNat),
    ("wake_up_interval_millis", .int c.wakeUpIntervalMillis.toInt),
    ("strategy", c.order.toJson),
    ("use_lock_striping", .bool c.useLockStriping),
    ("lirs", c.lirs.toJson)]

/-- Reads the settings; what is missing has its default. -/
def ofJson? (j : Json) : Option Config := do
  let d : Config := {}
  match ← j.record?
      ["max_entries", "wake_up_interval_millis", "strategy", "use_lock_striping", "lirs"] with
  | [maxEntries, wake, order, striping, lirs] =>
    some {
      maxEntries := ← Json.optional Json.natural? d.maxEntries maxEntries
      wakeUpIntervalMillis := ← Json.optional Json.integer? d.wakeUpIntervalMillis wake
      order := ← Json.optional EvictionOrder.ofJson? d.order order
      useLockStriping := ← Json.optional Json.bool? d.useLockStriping striping
      lirs := ← Json.optional LirsConfig.ofJson? d.lirs lirs }
  | _ => none

end Config
end ClusterCache
