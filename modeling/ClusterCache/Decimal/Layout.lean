/-
# How a double is laid out in text

Every text of a double here has the fewest digits that read back.  What differs from one kind of
text to the next is which of two equally good last digits is taken, where the decimal point stands,
when an exponent is written, and how a whole number looks.  A `Layout` records those choices; the
module that owns a kind of text owns its record.
-/

import ClusterCache.Decimal.Shortest

namespace ClusterCache
namespace Decimal

/-- The choices that one kind of text makes for doubles. -/
structure Layout where
  /-- Which of two equally near numbers of the fewest digits is written. -/
  tie : Tie
  /-- The exponents of the leading digit that are written without an exponent part:
  from the first number on and below the second; all of them if there are no bounds. -/
  positional : Option (Int × Int)
  /-- Whether a whole number in positional notation ends in `.0`. -/
  pointZero : Bool
  /-- Whether an exponent above zero carries a plus sign. -/
  plus : Bool

/-- Drops trailing zero digits, at most `fuel` of them, and raises the exponent for each. -/
def trimZeros : Nat → Nat → Int → Nat × Int
  | 0, d, e => (d, e)
  | fuel + 1, d, e => if d % 10 = 0 then trimZeros fuel (d / 10) (e + 1) else (d, e)

/-- `count` zero digits. -/
def zeros (count : Nat) : String := String.ofList (List.replicate count '0')

/-- The digits of a number with the point after the first `whole` of them, zeros filled in on either
side as needed. -/
def pointAfter (digits : List Char) (whole : Int) (pointZero : Bool) : String :=
  if whole ≤ 0 then
    "0." ++ zeros (-whole).toNat ++ String.ofList digits
  else if digits.length ≤ whole.toNat then
    String.ofList digits ++ zeros (whole.toNat - digits.length) ++ (if pointZero then ".0" else "")
  else
    String.ofList (digits.take whole.toNat) ++ "." ++ String.ofList (digits.drop whole.toNat)

/-- The text of `d * 10 ^ e`, for `d` above zero. -/
def Layout.digits (l : Layout) (s : Scaled) : String :=
  let (d, e) := trimZeros 20 s.d s.e
  let ds := Nat.toDigits 10 d
  let x := e + ds.length - 1
  let plain := match l.positional with
    | none => true
    | some (low, high) => low ≤ x && x < high
  if plain then pointAfter ds (x + 1) l.pointZero
  else
    let mantissa := match ds with
      | [] => ""
      | [c] => c.toString
      | c :: cs => c.toString ++ "." ++ String.ofList cs
    mantissa ++ "e" ++ (if x < 0 then "-" else if l.plus then "+" else "") ++ toString x.natAbs

/-- The text of a double. -/
def Layout.text (l : Layout) (f : Float) : String :=
  match Double.ofFloat f with
  | .nan => "NaN"
  | .infinite negative => if negative then "-inf" else "inf"
  | .finite negative m q =>
    let body := if m = 0 then (if l.pointZero then "0.0" else "0") else l.digits (shortest l.tie m q)
    (if negative then "-" else "") ++ body

/-- Digits and a point only, and no point in a whole number: `1`, `0.0000001`. -/
def plain : Layout where
  tie := .up
  positional := none
  pointZero := false
  plus := false

end Decimal
end ClusterCache
