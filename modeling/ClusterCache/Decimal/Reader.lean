/-
# Reading a decimal number as a double

`float?` takes a sign, digits with at most one point, and an exponent, or one of the words `nan`,
`inf` and `infinity` in any case, and rounds the number once, to the nearest double.
-/

import ClusterCache.Decimal.Layout

namespace ClusterCache
namespace Decimal

/-- The number that a list of decimal digits stands for. -/
def digitsToNat (ds : List Char) : Nat := ds.foldl (fun n c => 10 * n + (c.toNat - '0'.toNat)) 0

/-- The double nearest to `d * 10 ^ e`.  Beyond the range of doubles the power is not computed: such
a number is infinite or zero whatever its digits. -/
def nearest (d : Nat) (e : Int) : Float :=
  let x := e + (Nat.toDigits 10 d).length
  if d = 0 then 0.0
  else if x > 400 then 1.0 / 0.0
  else if x < -400 then 0.0
  else if e < 0 then Float.ofScientific d true (-e).toNat else Float.ofScientific d false e.toNat

/-- The exponent part of a number: nothing, or a mark, a sign and at least one digit. -/
def exponent? : List Char → Option Int
  | [] => some 0
  | c :: rest =>
    if c = 'e' ∨ c = 'E' then
      let (negative, digits) := match rest with
        | '-' :: ds => (true, ds)
        | '+' :: ds => (false, ds)
        | ds => (false, ds)
      if digits.isEmpty || !digits.all Char.isDigit then none
      else
        let n : Int := digitsToNat digits
        some (if negative then -n else n)
    else none

/-- A number without its sign. -/
def unsignedFloat? (cs : List Char) : Option Float :=
  let word := String.ofList (cs.map Char.toLower)
  if word = "nan" then some (0.0 / 0.0)
  else if word = "inf" ∨ word = "infinity" then some (1.0 / 0.0)
  else
    let whole := cs.takeWhile Char.isDigit
    let rest := cs.dropWhile Char.isDigit
    let (fraction, rest) := match rest with
      | '.' :: r => (r.takeWhile Char.isDigit, r.dropWhile Char.isDigit)
      | r => ([], r)
    if whole.isEmpty && fraction.isEmpty then none
    else (exponent? rest).map fun e =>
      nearest (digitsToNat (whole ++ fraction)) (e - fraction.length)

/-- The double that a text stands for. -/
def float? (s : String) : Option Float :=
  match s.toList with
  | '-' :: cs => (unsignedFloat? cs).map fun f => -f
  | '+' :: cs => unsignedFloat? cs
  | cs => unsignedFloat? cs

end Decimal
end ClusterCache
