/-
# What the command line tells about itself

Help comes in full, with a paragraph for each thing to know about a setting, or as a summary.  Both
keep to a hundred columns.
-/

import ClusterCache.Load.CommandLine

namespace ClusterCache
namespace Load

namespace Setting

/-- What a setting is for. -/
def about : Setting → String
  | maxEntries => "Capacity bound of the cache"
  | strategy => "Eviction strategy"
  | wakeUpInterval => "Period of the background sweep. \"0s\" disables it"
  | writers => "Concurrent writer threads"
  | duration => "How long the writers run"
  | settleTimeout =>
    "How long to wait for the cache to settle at its bound after the writers stop"
  | lockStriping => "Partition entries over independently locked shards"
  | shards => "Shard count with lock striping"
  | keySpace => "Writers draw keys uniformly from \x600..key-space\x60"
  | json => "Print the report as JSON"

/-- The value of a setting that is not given, if it has values. -/
def default? : Setting → Option String :=
  let o : Options := {}
  fun
    | maxEntries => some (toString o.maxEntries.toNat)
    | strategy => some o.order.name.toLower
    | wakeUpInterval => some o.wakeUpInterval.decimalText
    | writers => some (toString o.writers.toNat)
    | duration => some o.duration.decimalText
    | settleTimeout => some o.settleTimeout.decimalText
    | lockStriping => none
    | shards => some (toString o.shards.toNat)
    | keySpace => some (toString o.keySpace.toNat)
    | json => none

/-- How a setting is written, with a name for its value. -/
def usage (s : Setting) : String :=
  "      --" ++ s.name ++
    if s.isSwitch then ""
    else " <" ++ String.ofList (s.name.toList.map fun c => if c = '-' then '_' else c.toUpper) ++ ">"

end Setting

/-- What an order does, for someone who chooses one. -/
def orderAbout : EvictionOrder → String
  | .lru => "Evict the least recently accessed entry"
  | .lirs => "Evict cold entries before hot (\"recently and frequently used\") ones"
  | .fifo => "Evict the oldest inserted entry"
  | .unordered => "No ordering guarantee. Minimum-overhead bounding"
  | .none => "Never evict. The cache is unbounded"

/-- What stands in front of the lines about a setting. -/
def indent : String := String.ofList (List.replicate 10 ' ')

/-- Puts words into lines of at most `width` columns; `line` is the line begun. -/
def fill (width : Nat) (line : String) : List String → List String
  | [] => [line]
  | w :: ws =>
    if (line ++ " " ++ w).length ≤ width then fill width (line ++ " " ++ w) ws
    else line :: fill width w ws

/-- A text in lines that leave room for the indentation. -/
def filled (s : String) : List String :=
  match s.splitOn " " with
  | [] => []
  | w :: ws => (fill (100 - indent.length) w ws).map (indent ++ ·)

/-- The orders that can be chosen, a line for each. -/
def choices : List String :=
  EvictionOrder.all.map fun o =>
    indent ++ "- " ++ o.name.toLower ++ ": " ++
      String.ofList (List.replicate (9 - o.name.length) ' ') ++ orderAbout o

/-- A setting in full. -/
def Setting.entry (s : Setting) : List String :=
  [s.usage] ++ filled s.about ++
    (match s.default? with
      | none => []
      | some d => [indent, indent ++ "[default: " ++ d ++ "]"]) ++
    if s = .strategy then ["", indent ++ "Possible values:"] ++ choices else []

/-- A setting in summary. -/
def Setting.summary (s : Setting) : List String :=
  [s.usage] ++ filled (s.about ++
    (match s.default? with
      | none => ""
      | some d => " [default: " ++ d ++ "]") ++
    if s = .strategy then
      " [possible values: " ++ ", ".intercalate (EvictionOrder.all.map (·.name.toLower)) ++ "]"
    else "")

/-- The name of the program. -/
def programName : String := "grid-bench"

/-- What comes before the settings. -/
def heading : List String :=
  ["convergence bench tool for grid - concurrent writers against a bounded cache", "",
    "Usage: " ++ programName ++ " [OPTIONS]", "", "Options:"]

/-- Help, in full or as a summary. -/
def helpLines (full : Bool) : List String :=
  if full then
    heading ++ (Setting.all.flatMap fun s => s.entry ++ [""]) ++
      ["  -h, --help", indent ++ "Print help (see a summary with '-h')", "",
        "  -V, --version", indent ++ "Print version"]
  else
    heading ++ Setting.all.flatMap Setting.summary ++
      ["  -h, --help", indent ++ "Print help (see more with '--help')",
        "  -V, --version", indent ++ "Print version"]

/-- Why a command line was refused, in words. -/
def UsageError.message : UsageError → String
  | missingValue => "a value is required"
  | unknownChoice => "the value is not among the possible values"
  | malformedValue => "the value is not valid"
  | unknownArgument => "unexpected argument"
  | repeatedSetting => "an argument cannot be used twice"
  | unneededValue => "a value was not expected"

/-- The version. -/
def versionLine : String := programName ++ " 0.1.0-dev"

end Load
end ClusterCache
