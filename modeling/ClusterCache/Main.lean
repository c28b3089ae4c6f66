/-
# The load program

Runs a load against a bounded cache for as long as the command line asks, and prints the report.  Only
time and chance come in here: the clock says when the writers stop and when the sweeper comes by, and
keys are drawn at random.
-/

import ClusterCache.Load.Help
import ClusterCache.Load.Run

namespace ClusterCache
namespace Load

variable {S : Strategy UInt64}

/-- A load and when it was swept last. -/
structure Timed (S : Strategy UInt64) where
  run : Run S
  swept : Nat

/-- Milliseconds as a number of 64 bits. -/
def elapsed (since : Nat) : IO UInt64 := do
  return ((← IO.monoMsNow) - since).toUInt64

/-- The sweeper comes by if it is time. -/
def Timed.tick (t : Timed S) : IO (Timed S) := do
  let now ← IO.monoMsNow
  match t.run.cache.controller.config.wakeUpInterval with
  | none => return t
  | some interval =>
    if interval.millis ≤ now - t.swept then return ⟨t.run.sweep, now⟩ else return t

/-- Takes turns until the time of the writers is up. -/
partial def Timed.write (t : Timed S) (start : Nat) : IO (Timed S) := do
  if t.run.options.duration.millis ≤ (← IO.monoMsNow) - start then return t
  else
    let draws ← (List.range t.run.options.writers.toNat).mapM fun _ => do
      return (← IO.rand 0 (UInt64.size - 1)).toUInt64
    let t ← { t with run := t.run.turn draws }.tick
    t.write start

/-- Waits until the cache is down to its bound or the time for that is up; answers how long it
took. -/
partial def Timed.settle (t : Timed S) (start : Nat) : IO (Timed S × Option UInt64) := do
  let waited ← elapsed start
  if t.run.settled then return (t, some waited)
  else if t.run.options.settleTimeout.millis ≤ waited.toNat then return (t, none)
  else
    IO.sleep 10
    (← t.tick).settle start

/-- Runs a load and prints its report. -/
def Run.perform (r : Run S) : IO UInt32 := do
  let start ← IO.monoMsNow
  let t ← Timed.write ⟨r, start⟩ start
  let written ← elapsed start
  let (t, settled) ← t.settle (← IO.monoMsNow)
  let report := t.run.report written settled
  IO.println (if r.options.json then report.toJson.pretty else report.text)
  if report.settled then return 0
  else
    IO.eprintln ("Error: cache did not settle at " ++ toString r.options.maxEntries.toNat ++
      " entries within " ++ r.options.settleTimeout.unitText)
    return 1

/-- Does what the command line asks for. -/
def obey (args : List String) : IO UInt32 := do
  match Options.ofWords args with
  | .error (.help full) =>
    (helpLines full).forM IO.println
    return 0
  | .error .version =>
    IO.println versionLine
    return 0
  | .error (.refused e) =>
    IO.eprintln ("error: " ++ e.message)
    return 2
  | .ok o =>
    match o.validate with
    | .error e =>
      IO.eprintln ("Error: " ++ e.message)
      return 1
    | .ok _ =>
      match Run.start o with
      | .error f =>
        IO.eprintln ("Error: failed to build cache: " ++ f.line)
        return 1
      | .ok r => r.perform

end Load
end ClusterCache

/-- The load program. -/
def main (args : List String) : IO UInt32 := ClusterCache.Load.obey args
