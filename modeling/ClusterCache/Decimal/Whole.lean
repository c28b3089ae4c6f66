/-
# Doubles rounded to whole numbers

The exact value of a double is rounded once, to the nearest whole number, and a half goes to the even
neighbour.
-/

import ClusterCache.Decimal.Shortest

namespace ClusterCache
namespace Decimal

/-- The whole number nearest to `num / den`; of two, the even one. -/
def roundEven (num den : Nat) : Nat :=
  let floor := num / den
  let twice := 2 * (num % den)
  if twice < den then floor
  else if den < twice then floor + 1
  else floor + floor % 2

/-- Rounding is off by half a unit at most. -/
theorem roundEven_near (num den : Nat) (h : 0 < den) :
    2 * num ≤ 2 * (roundEven num den * den) + den ∧
      2 * (roundEven num den * den) ≤ 2 * num + den := by
  have hd := Nat.div_add_mod num den
  have hm := Nat.mod_lt num h
  rw [Nat.mul_comm] at hd
  unfold roundEven
  simp only
  have hs : (num / den + 1) * den = num / den * den + den := by rw [Nat.add_mul, Nat.one_mul]
  split
  · omega
  · split
    · rw [hs]; omega
    · rcases Nat.mod_two_eq_zero_or_one (num / den) with he | he
      · rw [he]; simp only [Nat.add_zero]; omega
      · rw [he, hs]; omega

/-- A half goes to the even neighbour. -/
example : (roundEven 1 2, roundEven 3 2, roundEven 5 2) = (0, 2, 2) := by decide

/-- The text of a double without a fraction. -/
def wholeText (f : Float) : String :=
  match Double.ofFloat f with
  | .nan => "NaN"
  | .infinite negative => if negative then "-inf" else "inf"
  | .finite negative m q =>
    (if negative then "-" else "") ++ toString (roundEven (m * Nat.pow 2 q.toNat) (Nat.pow 2 (-q).toNat))

end Decimal
end ClusterCache
