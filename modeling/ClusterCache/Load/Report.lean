/-
# The outcome of a load

A report has two forms: lines for a reader, each with a label, and a JSON object for a program.
-/

import ClusterCache.Config
import ClusterCache.Decimal.Whole
import ClusterCache.Duration.Text
import ClusterCache.Metrics

namespace ClusterCache
namespace Load

/-- What came of a load. -/
structure Report where
  order : EvictionOrder
  /-- The bound of the cache, if there is one. -/
  maxEntries : Option Nat
  writers : Nat
  /-- How many records were written. -/
  inserts : UInt64
  /-- How long the writers wrote. -/
  writeMillis : UInt64
  /-- The largest number of records seen while the writers wrote. -/
  peakLen : Nat
  /-- The number of records in the end. -/
  finalLen : Nat
  /-- How long the cache took to come down to its bound, if it did. -/
  settleMillis : Option UInt64
  metrics : Metrics

namespace Report

/-- Whether the cache came down to its bound. -/
def settled (r : Report) : Bool := r.settleMillis.isSome

/-- Records written in a second; none in no time. -/
def throughput (r : Report) : Float :=
  if r.writeMillis = 0 then 0.0 else r.inserts.toFloat * 1000.0 / r.writeMillis.toFloat

/-- A number of milliseconds in whole units. -/
def millis (n : UInt64) : String := (Duration.ofMillis n).unitText

/-- A label and what it stands for. -/
def labelled (label content : String) : String :=
  label ++ ":" ++ String.ofList (List.replicate (15 - label.length) ' ') ++ content

/-- The report in lines. -/
def lines (r : Report) : List String :=
  [labelled "strategy" r.order.name,
    labelled "max entries" (match r.maxEntries with
      | none => "unbounded"
      | some max => toString max),
    labelled "writers" (toString r.writers),
    labelled "inserts" (toString r.inserts.toNat ++ " in " ++ millis r.writeMillis ++ " (" ++
      Decimal.wholeText r.throughput ++ "/s)"),
    labelled "peak len" (toString r.peakLen),
    labelled "final len" (toString r.finalLen),
    labelled "settled after" (match r.settleMillis with
      | none => "never"
      | some n => millis n),
    labelled "evicted" (toString r.metrics.evict ++ " (" ++ toString r.metrics.sweep ++
      " sweeps, " ++ toString r.metrics.replace ++ " replaced)")]

/-- The report as one text. -/
def text (r : Report) : String := "\n".intercalate r.lines

/-- The report as a JSON object. -/
def toJson (r : Report) : Json :=
  .obj [
    ("strategy", r.order.toJson),
    ("max_entries", Json.option .nat r.maxEntries),
    ("writers", .nat r.writers),
    ("inserts", .nat r.inserts.toNat),
    ("write_millis", .nat r.writeMillis.toNat),
    ("peak_len", .nat r.peakLen),
    ("final_len", .nat r.finalLen),
    ("settle_millis", Json.option (fun n => .nat n.toNat) r.settleMillis),
    ("metrics", r.metrics.toJson)]

end Report
end Load
end ClusterCache
