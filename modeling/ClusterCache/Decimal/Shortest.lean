/-
# The fewest decimal digits that read back

A finite double is `m * 2 ^ q`.  Every real strictly between the midpoints to its two neighbours
rounds to it, and the midpoints themselves do when `m` is even.  `shortest m q` looks at the decimal
grids of one digit, two digits, and so on up to seventeen: on each it tests the two grid points
around the value, in exact arithmetic, and the first grid with a point in that interval wins.  Of
two points of one grid the nearer wins; of two at the same distance it depends on the kind of text
which one wins, and `Tie` says so.
-/

namespace ClusterCache
namespace Decimal

/-- What the bits of a double stand for: `m * 2 ^ q` with a sign, or one of the values that are no
number of that kind. -/
inductive Double where
  | nan
  | infinite (negative : Bool)
  | finite (negative : Bool) (m : Nat) (q : Int)
  deriving DecidableEq, Repr

/-- How many fractions a double can have: its fraction has fifty-two bits. -/
def fractions : Nat := 0x10000000000000

/-- Splits the 64 bits of a double into sign, eleven exponent bits and fifty-two fraction bits. -/
def Double.ofBits (bits : Nat) : Double :=
  let negative := (bits >>> 63) % 2 == 1
  let scale : Nat := bits / fractions % 2048
  let fraction := bits % fractions
  if scale = 2047 then
    if fraction = 0 then .infinite negative else .nan
  else if scale = 0 then .finite negative fraction (-1074)
  else .finite negative (fractions + fraction) ((scale : Int) - 1075)

/-- What a float stands for. -/
def Double.ofFloat (f : Float) : Double := .ofBits f.toBits.toNat

/-- A positive rational number. -/
structure Ratio where
  num : Nat
  den : Nat

/-- `a * 2 ^ q` for a natural number `a`. -/
def Ratio.binary (a : Nat) (q : Int) : Ratio := ⟨a * Nat.pow 2 q.toNat, Nat.pow 2 (-q).toNat⟩

/-- `d * 10 ^ e` for a natural number `d`. -/
def Ratio.decimal (d : Nat) (e : Int) : Ratio := ⟨d * Nat.pow 10 e.toNat, Nat.pow 10 (-e).toNat⟩

/-- Whether the first number is below the second. -/
def Ratio.lt (a b : Ratio) : Bool := a.num * b.den < b.num * a.den

/-- The largest `d` with `d * 10 ^ e ≤ r`. -/
def Ratio.floorAt (r : Ratio) (e : Int) : Nat :=
  r.num * Nat.pow 10 (-e).toNat / (r.den * Nat.pow 10 e.toNat)

/-- The exponent `x` with `10 ^ x ≤ r < 10 ^ (x + 1)`, for a positive `r`. -/
def Ratio.magnitude (r : Ratio) : Int :=
  let guess : Int := (Nat.toDigits 10 r.num).length - (Nat.toDigits 10 r.den).length
  if r.lt (.decimal 1 guess) then guess - 1 else guess

/-- The reals that round to one double, as an interval with or without its ends. -/
structure Rounding where
  low : Ratio
  high : Ratio
  closed : Bool

/-- The interval of `m * 2 ^ q`.  Below a power of two the neighbours are half as far apart, unless
the exponent is already the least one. -/
def Rounding.of (m : Nat) (q : Int) : Rounding where
  low := .binary (4 * m - if m = fractions ∧ q ≠ -1074 then 1 else 2) (q - 2)
  high := .binary (4 * m + 2) (q - 2)
  closed := m % 2 = 0

/-- Whether a number lies in the interval. -/
def Rounding.holds (i : Rounding) (r : Ratio) : Bool :=
  if i.closed then !r.lt i.low && !i.high.lt r else i.low.lt r && r.lt i.high

/-- Which of two neighbours at the same distance is taken. -/
inductive Tie where
  /-- The larger one. -/
  | up
  /-- The even one. -/
  | toEven
  deriving DecidableEq, Repr

/-- Whether `below` is taken, and not its upper neighbour. -/
def Tie.takes (t : Tie) (below : Nat) : Bool :=
  match t with
  | .up => false
  | .toEven => below % 2 = 0

/-- A decimal number `d * 10 ^ e`. -/
structure Scaled where
  d : Nat
  e : Int
  deriving DecidableEq, Repr

/-- The point of the grid `10 ^ e` that stands for `m * 2 ^ q`, if one does: the nearer of the two
around it. -/
def onGrid (tie : Tie) (m : Nat) (q e : Int) : Option Scaled :=
  let value := Ratio.binary m q
  let interval := Rounding.of m q
  let below := value.floorAt e
  let lower := interval.holds (.decimal below e)
  let upper := interval.holds (.decimal (below + 1) e)
  let middle : Ratio := ⟨(2 * below + 1) * Nat.pow 10 e.toNat, 2 * Nat.pow 10 (-e).toNat⟩
  if lower && upper then
    if value.lt middle then some ⟨below, e⟩
    else if middle.lt value then some ⟨below + 1, e⟩
    else if tie.takes below then some ⟨below, e⟩ else some ⟨below + 1, e⟩
  else if lower then some ⟨below, e⟩
  else if upper then some ⟨below + 1, e⟩
  else none

/-- The shortest decimal number that reads back as `m * 2 ^ q`, for `m` above zero. -/
def shortest (tie : Tie) (m : Nat) (q : Int) : Scaled :=
  let x := (Ratio.binary m q).magnitude
  ((List.range 17).findSome? fun n : Nat => onGrid tie m q (x - n)).getD
    ⟨(Ratio.binary m q).floorAt (x - 16), x - 16⟩

example : shortest .up 1 (-1074) = ⟨5, -324⟩ := by decide +kernel
example : shortest .up fractions (-52) = ⟨1, 0⟩ := by decide +kernel
example : shortest .up 7205759403792794 (-56) = ⟨1, -1⟩ := by decide +kernel
example : shortest .up (2 * fractions - 1) 971 = ⟨17976931348623157, 292⟩ := by decide +kernel

/-- A tie: the value is `2.98023223876953125e-8`. -/
example : (shortest .up fractions (-77), shortest .toEven fractions (-77)) =
    (⟨29802322387695313, -24⟩, ⟨29802322387695312, -24⟩) := by decide +kernel

end Decimal
end ClusterCache
