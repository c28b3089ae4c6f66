/-
# Numbers in a word of 32 bits

A number is read and written in one word, by masks and shifts.  A reader makes five rounds, one for
each byte that a number may have, and puts the group that it finds into the word, above those that it
has (`gather`).  A writer puts the lowest group at the end of a buffer and shifts it out of the word,
as long as more than one is left (`spill`).

Nothing is lost in the word, neither at its upper end nor between the groups, so both come to the same
as reading and writing the number by division (`gather_eq`, `spill_eq`).  In particular a reader that
has made its five rounds has come to an end in one of them.
-/

import Mathlib.Tactic.Ring
import ClusterCache.Proofs.Wire.Form

namespace ClusterCache
namespace Wire
namespace Varint

variable {more index : Nat} {v : UInt32} {b : UInt8} {bytes : List UInt8}

/-! ### Masks and shifts -/

/-- The low seven bits of a byte are its rest by 128. -/
theorem toNat_low_byte (b : UInt8) : (b &&& 0x7f).toNat = b.toNat % 128 := by
  rw [UInt8.toNat_and]
  exact Nat.and_two_pow_sub_one_eq_mod b.toNat 7

/-- The high bit of a byte says whether it is from 128 on. -/
theorem high_bit_eq_zero_iff (b : UInt8) : b &&& 0x80 = 0 ↔ b.toNat < 128 := by
  have hall : ∀ n : Fin 256, n.val &&& 0x80 = 0 ↔ n.val < 128 := by decide +kernel
  rw [← UInt8.toNat_inj, UInt8.toNat_and]
  exact hall ⟨b.toNat, b.toNat_lt⟩

/-- The high half of a byte says whether it is from 16 on. -/
theorem high_half_eq_zero_iff (b : UInt8) : b &&& 0xf0 = 0 ↔ b.toNat < 16 := by
  have hall : ∀ n : Fin 256, n.val &&& 0xf0 = 0 ↔ n.val < 16 := by decide +kernel
  rw [← UInt8.toNat_inj, UInt8.toNat_and]
  exact hall ⟨b.toNat, b.toNat_lt⟩

/-- The low seven bits of a word are its rest by 128. -/
theorem toNat_low_word (v : UInt32) : (v &&& 0x7f).toNat = v.toNat % 128 := by
  rw [UInt32.toNat_and]
  exact Nat.and_two_pow_sub_one_eq_mod v.toNat 7

/-- A word shifted by seven bits is its 128th part. -/
theorem toNat_shiftRight_seven (v : UInt32) : (v >>> 7).toNat = v.toNat / 128 := by
  rw [UInt32.toNat_shiftRight]
  exact Nat.shiftRight_eq_div_pow v.toNat 7

/-- What is above the lowest group of a word is zero if the word is one group. -/
theorem above_low_eq_zero_iff (v : UInt32) : v &&& ~~~0x7f = 0 ↔ v.toNat < 128 := by
  have hlow : (v &&& ~~~0x7f).toNat % 2 ^ 7 = 0 := by
    rw [UInt32.toNat_and, Nat.and_mod_two_pow]
    exact Nat.and_zero _
  have hhigh : (v &&& ~~~0x7f).toNat / 2 ^ 7 = v.toNat / 128 := by
    have hv := v.toNat_lt
    have hmask := Nat.and_two_pow_sub_one_eq_mod (v.toNat / 128) 25
    rw [UInt32.toNat_and, Nat.and_div_two_pow]
    exact hmask.trans (Nat.mod_eq_of_lt (by omega))
  rw [← UInt32.toNat_inj, show (0 : UInt32).toNat = 0 from rfl]
  omega

/-- The lowest group of a word as a byte with the high bit. -/
theorem low_or_high_bit (v : UInt32) :
    (v &&& 0x7f).toUInt8 ||| 0x80 = (v.toNat % 128 + 128).toUInt8 := by
  have hlt : v.toNat % 128 < 2 ^ 7 := Nat.mod_lt _ (by decide)
  have hor : v.toNat % 128 ||| 0x80 = v.toNat % 128 + 128 := by
    have hadd := Nat.two_pow_add_eq_or_of_lt hlt 1
    rw [Nat.or_comm]
    exact hadd.symm.trans (Nat.add_comm _ _)
  rw [← UInt8.toNat_inj, UInt8.toNat_or, UInt32.toNat_toUInt8, toNat_low_word,
    Nat.mod_eq_of_lt (by omega)]
  exact hor.trans (UInt8.toNat_ofNat_of_lt' (show _ < 256 by omega)).symm

/-- A group put above the others in a word is added in its place, if the word has room for it. -/
theorem toNat_or_shiftLeft (hindex : index ≤ 4) (hv : v.toNat < 128 ^ index)
    (hroom : 128 ^ index * (b.toNat % 128) < 2 ^ 32) :
    (v ||| (b &&& 0x7f).toUInt32 <<< (7 * index).toUInt32).toNat =
      v.toNat + 128 ^ index * (b.toNat % 128) := by
  have hshift : (7 * index).toUInt32.toNat % 32 = 7 * index := by
    rw [show (7 * index).toUInt32.toNat = 7 * index from UInt32.toNat_ofNat_of_lt'
      (show _ < 2 ^ 32 by omega)]
    omega
  have hpow : 128 ^ index = 2 ^ (7 * index) := by rw [Nat.pow_mul]
  rw [hpow] at hv hroom ⊢
  rw [UInt32.toNat_or, UInt32.toNat_shiftLeft, hshift, UInt8.toNat_toUInt32, toNat_low_byte,
    Nat.shiftLeft_eq, Nat.mul_comm, Nat.mod_eq_of_lt hroom, Nat.or_comm,
    ← Nat.two_pow_add_eq_or_of_lt hv, Nat.add_comm]

/-- The word has room for each of the first four groups, and stays below the place of the next one. -/
theorem toNat_or_shiftLeft_of_lt (hindex : index < 4) (hv : v.toNat < 128 ^ index) (b : UInt8) :
    (v ||| (b &&& 0x7f).toUInt32 <<< (7 * index).toUInt32).toNat =
        v.toNat + 128 ^ index * (b.toNat % 128) ∧
      v.toNat + 128 ^ index * (b.toNat % 128) < 128 ^ (index + 1) := by
  have hgroup : 128 ^ index * (b.toNat % 128) + 128 ^ index ≤ 128 ^ (index + 1) := by
    rw [← Nat.mul_succ, Nat.pow_succ]
    exact Nat.mul_le_mul_left _ (Nat.mod_lt _ (by decide))
  have hplace : 128 ^ (index + 1) ≤ 128 ^ 4 := Nat.pow_le_pow_right (by decide) hindex
  exact ⟨toNat_or_shiftLeft (Nat.le_of_lt hindex) hv (by omega), by omega⟩

/-! ### Reading -/

/-- Reads the groups from number `index` on into the word `v`, in as many rounds as are given; `none` is
what comes after the last round. -/
def gather : (rounds index : Nat) → UInt32 → List UInt8 → Option (Outcome UInt32)
  | 0, _, _, _ => none
  | _ + 1, index, _, [] => some (.error (.endOfBuffer "varint" (index + 1) index), [])
  | rounds + 1, index, v, b :: rest =>
    if index = maxLength - 1 ∧ ¬ b &&& 0xf0 = 0 then some (.error (.varintOverflow b), rest)
    else
      let v := v ||| (b &&& 0x7f).toUInt32 <<< (7 * index).toUInt32
      if b &&& 0x80 = 0 then some (.ok v, rest) else gather rounds (index + 1) v rest

/-- The rounds that are left add what they read to the word, in the place of the group at hand. -/
theorem gather_eq (h : more + index = 4) (hv : v.toNat < 128 ^ index) (bytes : List UInt8) :
    gather (more + 1) index v bytes =
      some ((decodeGroups more index bytes).1.map fun n => (v.toNat + 128 ^ index * n).toUInt32,
        (decodeGroups more index bytes).2) := by
  induction more generalizing index v bytes with
  | zero =>
    obtain rfl : index = 4 := by omega
    cases bytes with
    | nil => rfl
    | cons b rest =>
      by_cases hb : b.toNat < 16
      · have hword := toNat_or_shiftLeft (b := b) (Nat.le_refl 4) hv (by omega)
        rw [Nat.mod_eq_of_lt (by omega)] at hword
        rw [gather, decodeGroups, if_pos hb, if_neg fun h => h.2 ((high_half_eq_zero_iff b).2 hb),
          if_pos ((high_bit_eq_zero_iff b).2 (by omega)), ← UInt32.ofNat_toNat (x := _ ||| _), hword]
        rfl
      · rw [gather, decodeGroups, if_neg hb,
          if_pos ⟨rfl, fun h => hb ((high_half_eq_zero_iff b).1 h)⟩]
        rfl
  | succ more ih =>
    cases bytes with
    | nil => rfl
    | cons b rest =>
      obtain ⟨hword, hlt⟩ := toNat_or_shiftLeft_of_lt (by omega) hv b
      have hindex : ¬ (index = maxLength - 1 ∧ ¬ b &&& 0xf0 = 0) := fun h => by
        have hmax : index = 4 := h.1
        omega
      rw [gather, decodeGroups, if_neg hindex]
      by_cases hb : b.toNat < 128
      · rw [Nat.mod_eq_of_lt hb] at hword
        rw [if_pos hb, if_pos ((high_bit_eq_zero_iff b).2 hb), ← UInt32.ofNat_toNat (x := _ ||| _),
          hword]
        rfl
      · have hrest := ih (v := v ||| (b &&& 0x7f).toUInt32 <<< (7 * index).toUInt32)
          (show more + (index + 1) = 4 by omega) (hword ▸ hlt) rest
        rw [if_neg hb, if_neg fun h => hb ((high_bit_eq_zero_iff b).1 h), hrest, hword]
        have hmod : b.toNat % 128 = b.toNat - 128 := by
          have hbyte := b.toNat_lt
          omega
        rcases decodeGroups more (index + 1) rest with ⟨e | n, left⟩
        · rfl
        · have hvalue : v.toNat + 128 ^ index * (b.toNat % 128) + 128 ^ (index + 1) * n =
              v.toNat + 128 ^ index * (b.toNat - 128 + 128 * n) := by
            rw [hmod]
            ring
          exact congrArg (fun n => some (Except.ok n.toUInt32, left)) hvalue

/-- **Five rounds are enough**, and a word is: what they read is the number in front, or the reason why
there is none. -/
theorem gather_five_rounds (bytes : List UInt8) : gather maxLength 0 0 bytes = some (decode bytes) := by
  have hrounds : gather (4 + 1) 0 0 bytes = _ := gather_eq rfl Nat.one_pos bytes
  rw [show maxLength = 4 + 1 from rfl, hrounds, decode]
  simp only [UInt32.toNat_zero, Nat.pow_zero, Nat.one_mul, Nat.zero_add]

/-! ### Writing -/

/-- Puts the groups of a word at the end of a buffer, the lowest first, and shifts each out of the word
when it is written. -/
def spill (buffer : List UInt8) (v : UInt32) : List UInt8 :=
  if v &&& ~~~0x7f = 0 then buffer ++ [v.toUInt8]
  else spill (buffer ++ [(v &&& 0x7f).toUInt8 ||| 0x80]) (v >>> 7)
termination_by v.toNat
decreasing_by
  rename_i hmore
  have hv := mt (above_low_eq_zero_iff v).2 hmore
  rw [toNat_shiftRight_seven]
  omega

/-- **What is put at the end of a buffer is what is written** for the number in the word. -/
theorem spill_groups (hv : v.toNat < 16 * 128 ^ more) (buffer : List UInt8) :
    spill buffer v = buffer ++ groups more v.toNat := by
  induction more generalizing v buffer with
  | zero =>
    have hlast : v &&& ~~~0x7f = 0 := (above_low_eq_zero_iff v).2 (by omega)
    rw [spill, if_pos hlast, groups]
    rfl
  | succ more ih =>
    rw [spill, groups]
    by_cases hlow : v.toNat < 128
    · rw [if_pos ((above_low_eq_zero_iff v).2 hlow), if_pos hlow]
      rfl
    · rw [Nat.pow_succ] at hv
      have hrest := ih (v := v >>> 7) (by rw [toNat_shiftRight_seven]; omega)
        (buffer ++ [(v &&& 0x7f).toUInt8 ||| 0x80])
      rw [if_neg (mt (above_low_eq_zero_iff v).1 hlow), if_neg hlow, hrest, toNat_shiftRight_seven,
        low_or_high_bit, List.append_assoc, List.singleton_append]

/-- The loop over a word writes the groups of its number behind what is in the buffer. -/
theorem spill_eq (buffer : List UInt8) (v : UInt32) : spill buffer v = buffer ++ encode v :=
  spill_groups v.toNat_lt buffer

end Varint
end Wire
end ClusterCache
