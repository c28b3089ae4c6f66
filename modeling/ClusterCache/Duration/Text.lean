/-
# Spans of time as text

Two ways to write a span: as one decimal number with the largest unit that leaves a whole part
(`1.5s`), and as whole numbers of several units with blanks between them (`1s 500ms`).  The second
form can be read back; the reader is more liberal, and takes several names for a unit, blanks
anywhere, repeated units and fractions.
-/

import ClusterCache.Duration
import ClusterCache.Text.Blank

namespace ClusterCache
namespace Duration

/-! ### One number -/

/-- Drops the zeros at the end of digits. -/
def trimZeros (ds : List Char) : List Char := (ds.reverse.dropWhile (· = '0')).reverse

/-- A whole part and `part` out of `10 ^ places`, without zeros at the end. -/
def decimal (whole part places : Nat) : String :=
  let ds := Nat.toDigits 10 part
  let ds := trimZeros (List.replicate (places - ds.length) '0' ++ ds)
  toString whole ++ (if ds.isEmpty then "" else "." ++ String.ofList ds)

/-- The span as one number. -/
def decimalText (d : Duration) : String :=
  if nanosPerSecond ≤ d.nanos then decimal d.seconds d.subsecondNanos 9 ++ "s"
  else if 1000000 ≤ d.nanos then decimal (d.nanos / 1000000) (d.nanos % 1000000) 6 ++ "ms"
  else if 1000 ≤ d.nanos then decimal (d.nanos / 1000) (d.nanos % 1000) 3 ++ "µs"
  else toString d.nanos ++ "ns"

/-! ### Several units -/

/-- The seconds in a year of 365.25 days. -/
def yearSeconds : Nat := 31557600

/-- The seconds in a month of 30.44 days. -/
def monthSeconds : Nat := 2630016

/-- The seconds in a day. -/
def daySeconds : Nat := 86400

/-- A count of a unit whose name is spelled out, with an `s` from two on; nothing for zero. -/
def spelled (name : String) (n : Nat) : List String :=
  if n = 0 then [] else [toString n ++ name ++ (if 1 < n then "s" else "")]

/-- A count of a unit; nothing for zero. -/
def counted (name : String) (n : Nat) : List String := if n = 0 then [] else [toString n ++ name]

/-- The span as whole numbers of units, largest unit first. -/
def unitText (d : Duration) : String :=
  if d.isZero then "0s"
  else
    let inYear := d.seconds % yearSeconds
    let inMonth := inYear % monthSeconds
    let inDay := inMonth % daySeconds
    " ".intercalate (
      spelled "year" (d.seconds / yearSeconds) ++
      spelled "month" (inYear / monthSeconds) ++
      spelled "day" (inMonth / daySeconds) ++
      counted "h" (inDay / 3600) ++
      counted "m" (inDay % 3600 / 60) ++
      counted "s" (inDay % 60) ++
      counted "ms" (d.subsecondNanos / 1000000) ++
      counted "us" (d.subsecondNanos / 1000 % 1000) ++
      counted "ns" (d.subsecondNanos % 1000))

/-! ### Reading -/

/-- How much a unit is: so many nanoseconds, or so many seconds. -/
structure UnitSize where
  /-- Whether the amount is in seconds. -/
  inSeconds : Bool
  amount : Nat
  /-- What a fraction of the unit is taken of, and whether in seconds; a fraction has to be a whole
  number of those.  Fractions of the smallest unit are refused. -/
  fraction : Option (Bool × Nat)

/-- The names of the units. -/
def unitSize? (name : String) : Option UnitSize :=
  if name ∈ ["nanos", "nsec", "ns"] then some ⟨false, 1, none⟩
  else if name ∈ ["usec", "us", "µs"] then some ⟨false, 1000, some (false, 1000)⟩
  else if name ∈ ["millis", "msec", "ms"] then some ⟨false, 1000000, some (false, 1000000)⟩
  else if name ∈ ["seconds", "second", "secs", "sec", "s"] then
    some ⟨true, 1, some (false, 1000000000)⟩
  else if name ∈ ["minutes", "minute", "min", "mins", "m"] then
    some ⟨true, 60, some (false, 60000000000)⟩
  else if name ∈ ["hours", "hour", "hrs", "hr", "h"] then some ⟨true, 3600, some (true, 3600)⟩
  else if name ∈ ["days", "day", "d"] then some ⟨true, daySeconds, some (true, daySeconds)⟩
  else if name ∈ ["weeks", "week", "wks", "wk", "w"] then
    some ⟨true, 7 * daySeconds, some (true, 7 * daySeconds)⟩
  else if name ∈ ["months", "month", "M"] then
    some ⟨true, monthSeconds, some (true, monthSeconds)⟩
  else if name ∈ ["years", "year", "yrs", "yr", "y"] then
    some ⟨true, yearSeconds, some (true, yearSeconds)⟩
  else none

/-- A number that must fit 64 bits. -/
def word? (n : Nat) : Option Nat := if n < UInt64.size then some n else none

/-- Adds seconds or nanoseconds to a span. -/
def plus? (d : Duration) (inSeconds : Bool) (n : Nat) : Option Duration := do
  let n ← word? n
  if inSeconds then ofParts? (d.seconds + n) d.subsecondNanos
  else ofParts? d.seconds ((← word? (d.subsecondNanos + n)))

/-- Adds `n` and the fraction `num / den` of a unit to a span, if nothing has to be rounded. -/
def plusUnits? (d : Duration) (n : Nat) (fraction : Option (Nat × Nat)) (name : String) :
    Option Duration := do
  let unit ← unitSize? name
  let d ← d.plus? unit.inSeconds (n * unit.amount)
  match fraction with
  | none => some d
  | some (num, den) =>
    let (inSeconds, amount) ← unit.fraction
    let part ← word? (num * amount)
    if part % den = 0 then d.plus? inSeconds (part / den) else none

/-- Whether a character may stand in the name of a unit. -/
def isUnitChar (c : Char) : Bool := ('a' ≤ c && c ≤ 'z') || ('A' ≤ c && c ≤ 'Z') || c = 'µ'

/-- Where a reader is in its text. -/
inductive Reading where
  /-- Before a number, with the span so far; `fresh` if nothing was read yet. -/
  | start (d : Duration) (fresh : Bool)
  /-- In the whole part of a number. -/
  | whole (d : Duration) (n : Nat)
  /-- In the fraction of a number, as numerator and denominator. -/
  | fraction (d : Duration) (n num den : Nat)
  /-- In the name of a unit, its letters in reverse. -/
  | unit (d : Duration) (n : Nat) (fraction : Option (Nat × Nat)) (name : List Char)

/-- The value of a decimal digit. -/
def digit (c : Char) : Nat := c.toNat - '0'.toNat

/-- The reader takes one character. -/
def Reading.step : Reading → Char → Option Reading
  | .start d fresh, c =>
    if c.isDigit then some (.whole d (digit c))
    else if Text.isBlank c then some (.start d fresh)
    else none
  | .whole d n, c =>
    if c.isDigit then (word? (10 * n + digit c)).map (.whole d)
    else if Text.isBlank c then some (.whole d n)
    else if isUnitChar c then some (.unit d n none [c])
    else if c = '.' then some (.fraction d n 0 1)
    else none
  | .fraction d n num den, c =>
    if c.isDigit then do
      let den ← word? (10 * den)
      let num ← word? (10 * num + digit c)
      some (.fraction d n num den)
    else if Text.isBlank c then some (.fraction d n num den)
    else if isUnitChar c then if den = 1 then none else some (.unit d n (some (num, den)) [c])
    else none
  | .unit d n part name, c =>
    if isUnitChar c then some (.unit d n part (c :: name))
    else if c.isDigit then
      (d.plusUnits? n part (String.ofList name.reverse)).map fun d => .whole d (digit c)
    else if Text.isBlank c then
      (d.plusUnits? n part (String.ofList name.reverse)).map fun d => .start d false
    else none

/-- What has been read when the text ends. -/
def Reading.finish : Reading → Option Duration
  | .start d fresh => if fresh then none else some d
  | .whole _ _ => none
  | .fraction _ _ _ _ => none
  | .unit d n part name => d.plusUnits? n part (String.ofList name.reverse)

/-- The span that a text stands for; zero needs no unit. -/
def parse? (s : String) : Option Duration :=
  if s = "0" then some .zero
  else (s.toList.foldlM Reading.step (.start .zero true)).bind Reading.finish

end Duration
end ClusterCache
