/-
# How long things are on the wire

The length of a number is told by four bounds, before anything is written; what is written goes on
until nothing is left of the number.  Both come to the same (`Varint.length_encode`), and no form of the
number is shorter (`Varint.length_le_of_spells`), so a form is as short as can be exactly if it has
that length (`Varint.minimal_iff`).

A text has only one form, and its length is told by the number of its bytes
(`SizedText.length_of_spells`).
-/

import Mathlib.Tactic.IntervalCases
import Mathlib.Tactic.SplitIfs
import ClusterCache.Total
import ClusterCache.Proofs.Wire.Form

namespace ClusterCache
namespace Wire

/-! ### Numbers -/

namespace Varint

variable {v w : UInt32} {bytes : List UInt8}

/-- A larger number is not shorter. -/
theorem length_mono (h : v.toNat ≤ w.toNat) : length v ≤ length w := by
  unfold length
  split_ifs <;> omega

/-- **What is written for a number has the length that was told.** -/
theorem length_encode (v : UInt32) : (encode v).length = length v := by
  have hv : v.toNat < 2 ^ 32 := v.toNat_lt
  unfold encode length
  simp only [groups]
  split_ifs <;> simp only [List.length_cons, List.length_nil] <;> omega

/-- There is room for seven bits in each group. -/
theorem value_lt_pow (bytes : List UInt8) : value bytes < 128 ^ bytes.length := by
  induction bytes with
  | nil => exact Nat.one_pos
  | cons b rest ih =>
    rw [value, List.length_cons, Nat.pow_succ]
    omega

/-- **No form of a number is shorter than what is written for it.** -/
theorem length_le_of_spells (h : Spells bytes v) : length v ≤ bytes.length := by
  have hlt := value_lt_pow bytes
  have hpos := List.length_pos_iff.2 h.1.ne_nil
  rw [h.2] at hlt
  by_cases hfive : 5 ≤ bytes.length
  · unfold length
    split_ifs <;> omega
  · generalize bytes.length = n at hlt hpos hfive
    unfold length
    interval_cases n <;> split_ifs <;> omega

/-- A form is as short as can be exactly if it has the length that was told. -/
theorem minimal_iff (h : Spells bytes v) :
    (∀ other, Spells other v → bytes.length ≤ other.length) ↔ bytes.length = length v := by
  constructor
  · intro hmin
    have hle := hmin _ (spells_encode v)
    rw [length_encode] at hle
    exact Nat.le_antisymm hle (length_le_of_spells h)
  · intro hlength other hother
    rw [hlength]
    exact length_le_of_spells hother

end Varint

/-! ### Texts -/

namespace SizedText

variable {bytes : List UInt8} {s : String}

/-- **A text has the length that was told**, whatever its bytes are. -/
theorem length_of_spells (h : Spells bytes s) : bytes.length = length s := by
  obtain ⟨high, low, body, rfl, -, rfl⟩ := h
  rw [List.length_cons, List.length_cons, Utf8.length_encode, length]
  omega

/-- A text that has bytes is short enough to be written. -/
theorem le_of_spells (h : Spells bytes s) : s.utf8ByteSize ≤ maxTextLength := by
  obtain ⟨high, low, body, -, hlength, rfl⟩ := h
  have hhigh := high.toNat_lt
  have hlow := low.toNat_lt
  rw [Utf8.length_encode] at hlength
  rw [maxTextLength]
  omega

/-- Texts that are spelt one behind the other take as many bytes as all of them together. -/
theorem total_length_of_spells {entries : List (List UInt8)} {texts : List String}
    (h : List.Forall₂ Spells entries texts) : entries.flatten.length = total length texts := by
  induction h with
  | nil => rfl
  | cons hentry _ ih =>
    rw [List.flatten_cons, List.length_append, total_cons, ih, length_of_spells hentry]

end SizedText
end Wire
end ClusterCache
