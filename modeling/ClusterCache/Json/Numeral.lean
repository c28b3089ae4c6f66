/-
# Numbers in JSON text

A number with digits alone is whole and stays exact as long as it fits 64 bits.  Any other is read as
a double in two steps: its leading digits, as many as fit 64 bits, are rounded to a double, and that
double is multiplied or divided by one power of ten.  For up to fifteen digits and small exponents
both steps are exact up to the last rounding.
-/

import ClusterCache.Json

namespace ClusterCache
namespace Json

/-- The value of a decimal digit. -/
def digitValue (c : Char) : Nat := c.toNat - '0'.toNat

/-- Takes digits into a number as long as it stays below `2 ^ 64`; answers the number and how many
digits were taken. -/
def takeDigits (n : Nat) : List Char → Nat × Nat
  | [] => (n, 0)
  | c :: cs =>
    let m := 10 * n + digitValue c
    if m < UInt64.size then
      let (n, taken) := takeDigits m cs
      (n, taken + 1)
    else (n, 0)

/-- `1e308` and the powers of ten below it, as doubles. -/
def power (k : Nat) : Float := Float.ofScientific 1 false k

/-- `f * 10 ^ e`; for exponents below the range of powers the division is done in steps, of which
`steps` are enough to reach zero. -/
def scale (f : Float) (e : Int) : (steps : Nat) → Number
  | 0 => .double 0.0
  | steps + 1 =>
    if e.natAbs ≤ 308 then
      if e < 0 then .double (f / power e.natAbs)
      else
        let g := f * power e.natAbs
        if g.isInf then .beyond else .double g
    else if f == 0.0 then .double f
    else if 0 ≤ e then .beyond
    else scale (f / power 308) (e + 308) steps

/-- The opposite number. -/
def Number.negate : Number → Number
  | .double f => .double (-f)
  | n => n

/-- The number with the digits given, without its sign: whole part, fraction, exponent. -/
def magnitude (whole fraction : List Char) (exponent : Int) : Number :=
  let (n, taken) := takeDigits 0 whole
  let (n, taken') := takeDigits n fraction
  let e := exponent + (whole.length - taken : Nat) - taken'
  if 0x80000000 ≤ exponent.natAbs then
    if n ≠ 0 ∧ 0 < exponent then .beyond else .double 0.0
  else scale n.toUInt64.toFloat e 5

/-- A whole number with the digits given. -/
def wholeNumber (negative : Bool) (whole : List Char) : Number :=
  let (n, taken) := takeDigits 0 whole
  if taken < whole.length then
    let m := magnitude whole [] 0
    if negative then m.negate else m
  else if !negative then .natural n.toUInt64
  else if n = 0 ∨ 0x8000000000000000 < n then .double (-n.toUInt64.toFloat)
  else .negative (Int64.ofInt (-n))

/-- The digits in front of a text, at least one. -/
def digits? (cs : List Char) : Option (List Char × List Char) :=
  let ds := cs.takeWhile Char.isDigit
  if ds.isEmpty then none else some (ds, cs.dropWhile Char.isDigit)

/-- The exponent in front of a text, if there is one. -/
def exponent? : List Char → Option (Option Int × List Char)
  | c :: cs =>
    if c = 'e' ∨ c = 'E' then
      let (negative, cs) := match cs with
        | '-' :: r => (true, r)
        | '+' :: r => (false, r)
        | r => (false, r)
      (digits? cs).map fun (ds, rest) =>
        let n : Int := ds.foldl (fun n c => 10 * n + digitValue c) 0
        (some (if negative then -n else n), rest)
    else some (none, c :: cs)
  | [] => some (none, [])

/-- The fraction in front of a text, if there is one. -/
def fraction? : List Char → Option (Option (List Char) × List Char)
  | '.' :: cs => (digits? cs).map fun (ds, rest) => (some ds, rest)
  | cs => some (none, cs)

/-- The number in front of a text. -/
def number? (cs : List Char) : Option (Number × List Char) := do
  let (negative, cs) := match cs with
    | '-' :: r => (true, r)
    | r => (false, r)
  let (whole, cs) ← digits? cs
  if whole.length > 1 ∧ whole.head? = some '0' then none
  let (fraction, cs) ← fraction? cs
  let (exponent, cs) ← exponent? cs
  match fraction, exponent with
  | none, none => some (wholeNumber negative whole, cs)
  | fraction, exponent =>
    let m := magnitude whole (fraction.getD []) (exponent.getD 0)
    some (if negative then m.negate else m, cs)

end Json
end ClusterCache
