/-
# Numbers at the front of a buffer

Where a number ends is told by the high bits: its last group is the first byte without one, if that is
among the first five, and the fifth has room for four bits only (`Varint.EndsAt`).  A buffer in which a
number ends is read up to there, and the number is the sum of its groups in their places.  Every other
buffer is refused, either because it ends before the number does or because the fifth byte is too large
(`Varint.Refused`).  There is no third way (`Varint.read_exactly`).

What is written for a number is one of the forms in which it is read, and none of them is shorter
(`Varint.shortest_round_trip`).
-/

import Mathlib.Algebra.BigOperators.Ring.Finset
import ClusterCache.Proofs.Wire.Length
import ClusterCache.Proofs.Wire.Word

namespace ClusterCache
namespace Wire
namespace Varint

variable {more index i : Nat} {bytes front rest : List UInt8} {b : UInt8} {e : ReadError}

/-! ### Where a number ends -/

/-- Byte `i` is the last group of a number: it is among the first five and without the high bit, which
all bytes before it have; and the fifth byte has room for four bits only. -/
structure EndsAt (bytes : List UInt8) (i : Nat) : Prop where
  early : i < 5
  continued : ∀ c ∈ bytes.take i, 0x80 ≤ c.toNat
  ended : ∃ b, bytes[i]? = some b ∧ b.toNat < 0x80 ∧ (i = 4 → b.toNat ≤ 0x0f)

/-- The groups of a number, seen from the last one. -/
theorem grouped_concat_iff : Grouped more (front ++ [b]) ↔ front.length ≤ more ∧
    (∀ c ∈ front, 0x80 ≤ c.toNat) ∧ b.toNat < 0x80 ∧ (front.length = more → b.toNat ≤ 0x0f) := by
  constructor
  · rintro ⟨-, hshort, hcontinued, hended, hnarrow⟩
    rw [List.dropLast_concat] at hcontinued
    rw [List.length_append, List.length_singleton] at hshort
    have hlast : b.toNat < 0x80 := hended b List.getLast?_concat
    refine ⟨by omega, hcontinued, hlast, ?_⟩
    rintro rfl
    exact hnarrow b List.getElem?_concat_length
  · rintro ⟨hshort, hcontinued, hended, hnarrow⟩
    refine ⟨by simp, by simpa using hshort, by rwa [List.dropLast_concat], fun c hc => ?_,
      fun c hc => ?_⟩
    · rw [List.getLast?_concat] at hc
      obtain rfl := Option.some.inj hc
      exact hended
    · have hlt := (List.getElem?_eq_some_iff.1 hc).1
      rw [List.length_append, List.length_singleton] at hlt
      obtain rfl : front.length = more := by omega
      rw [List.getElem?_concat_length] at hc
      obtain rfl := Option.some.inj hc
      exact hnarrow rfl

/-- A number ends at a byte exactly if the bytes up to there are its groups. -/
theorem endsAt_iff : EndsAt bytes i ↔ i < bytes.length ∧ Grouped 4 (bytes.take (i + 1)) := by
  constructor
  · rintro ⟨hearly, hcontinued, b, hb, hended, hnarrow⟩
    have hlt := (List.getElem?_eq_some_iff.1 hb).1
    have hlength : (bytes.take i).length = i := List.length_take_of_le (by omega)
    refine ⟨hlt, ?_⟩
    rw [List.take_add_one, hb, Option.toList_some, grouped_concat_iff, hlength]
    exact ⟨by omega, hcontinued, hended, hnarrow⟩
  · rintro ⟨hlt, hgrouped⟩
    have hb : bytes[i]? = some bytes[i] := List.getElem?_eq_getElem hlt
    have hlength : (bytes.take i).length = i := List.length_take_of_le (by omega)
    rw [List.take_add_one, hb, Option.toList_some, grouped_concat_iff, hlength] at hgrouped
    obtain ⟨hshort, hcontinued, hended, hnarrow⟩ := hgrouped
    exact ⟨by omega, hcontinued, _, hb, hended, hnarrow⟩

/-- A number is the sum of its groups in their places. -/
theorem value_eq_sum (bytes : List UInt8) : value bytes =
    ∑ j ∈ Finset.range bytes.length, (bytes.getD j 0).toNat % 128 * 128 ^ j := by
  induction bytes with
  | nil => rfl
  | cons b rest ih =>
    rw [value, ih, List.length_cons, Finset.sum_range_succ', Finset.mul_sum, Nat.add_comm]
    refine congrArg₂ (· + ·) (Finset.sum_congr rfl fun j _ => ?_) (Nat.mul_one _).symm
    rw [List.getD_cons_succ, Nat.pow_succ]
    ring

/-- The first groups make up the sum of what each is worth in its place. -/
theorem value_take (hlt : i < bytes.length) : value (bytes.take (i + 1)) =
    ∑ j ∈ Finset.range (i + 1), (bytes.getD j 0).toNat % 128 * 128 ^ j := by
  rw [value_eq_sum, List.length_take_of_le hlt]
  refine Finset.sum_congr rfl fun j hj => ?_
  rw [List.getD_eq_getElem?_getD, List.getElem?_take_of_lt (Finset.mem_range.1 hj),
    ← List.getD_eq_getElem?_getD]

/-- A number is read where one ends, and nothing behind it is. -/
theorem decode_eq_ok_iff {v : UInt32} : decode bytes = (.ok v, rest) ↔
    ∃ i, EndsAt bytes i ∧ rest = bytes.drop (i + 1) ∧
      v.toNat = ∑ j ∈ Finset.range (i + 1), (bytes.getD j 0).toNat % 128 * 128 ^ j := by
  rw [exact]
  constructor
  · rintro ⟨front, rfl, hgrouped, hvalue⟩
    have hpos := List.length_pos_iff.2 hgrouped.ne_nil
    have hlength : front.length - 1 + 1 = front.length := by omega
    have hlt : front.length - 1 < (front ++ rest).length := by
      rw [List.length_append]
      omega
    refine ⟨front.length - 1, endsAt_iff.2 ⟨hlt, ?_⟩, ?_, ?_⟩
    · rwa [hlength, List.take_left]
    · rw [hlength, List.drop_left]
    · rw [← value_take hlt, hlength, List.take_left, hvalue]
  · rintro ⟨i, hends, rfl, hsum⟩
    obtain ⟨hlt, hgrouped⟩ := endsAt_iff.1 hends
    exact ⟨_, (List.take_append_drop (i + 1) bytes).symm, hgrouped, (value_take hlt).trans hsum.symm⟩

/-! ### Where there is no number -/

/-- Bytes in which no number ends, of which at most `more` groups come before the last and `index` are
read already: why it is refused, and what is left then. -/
inductive Refused (more index : Nat) : List UInt8 → ReadError → List UInt8 → Prop
  /-- All bytes say that another one follows, and that is missing. -/
  | cutShort {bytes : List UInt8} : bytes.length ≤ more → (∀ c ∈ bytes, 0x80 ≤ c.toNat) →
      Refused more index bytes
        (.endOfBuffer "varint" (index + bytes.length + 1) (index + bytes.length)) []
  /-- The last byte that there is room for has more than four bits. -/
  | overflow {front rest : List UInt8} {b : UInt8} : front.length = more →
      (∀ c ∈ front, 0x80 ≤ c.toNat) → 0x0f < b.toNat →
      Refused more index (front ++ b :: rest) (.varintOverflow b) rest

/-- A number that is refused is refused behind one more group, too. -/
theorem Refused.cons (hb : 0x80 ≤ b.toNat) (h : Refused more (index + 1) bytes e rest) :
    Refused (more + 1) index (b :: bytes) e rest := by
  cases h with
  | cutShort hshort hcontinued =>
    have hrefused : Refused (more + 1) index (b :: bytes) _ [] :=
      .cutShort (Nat.succ_le_succ hshort) (List.forall_mem_cons.2 ⟨hb, hcontinued⟩)
    rwa [List.length_cons, Nat.add_comm bytes.length, ← Nat.add_assoc] at hrefused
  | overflow hlength hcontinued hwide =>
    exact .overflow (congrArg (· + 1) hlength) (List.forall_mem_cons.2 ⟨hb, hcontinued⟩) hwide

/-- A buffer that ends before the number does is read to its end. -/
theorem decodeGroups_of_short (hshort : bytes.length ≤ more) (hcontinued : ∀ c ∈ bytes, 0x80 ≤ c.toNat)
    (index : Nat) : decodeGroups more index bytes =
      (.error (.endOfBuffer "varint" (index + bytes.length + 1) (index + bytes.length)), []) := by
  induction bytes generalizing more index with
  | nil => cases more <;> rfl
  | cons b rest ih =>
    obtain ⟨hb, hrest⟩ := List.forall_mem_cons.1 hcontinued
    rw [List.length_cons] at hshort ⊢
    obtain ⟨more, rfl⟩ : ∃ m, more = m + 1 := Nat.exists_eq_succ_of_ne_zero (by omega)
    have hmore : ¬ b.toNat < 128 := Nat.not_lt.2 hb
    rw [decodeGroups, if_neg hmore, ih (by omega) hrest, Nat.add_right_comm index 1, ← Nat.add_assoc]
    rfl

/-- The last byte that there is room for is taken off the buffer, though it is too large. -/
theorem decodeGroups_of_wide (hcontinued : ∀ c ∈ front, 0x80 ≤ c.toNat) (hb : 0x0f < b.toNat)
    (index : Nat) (rest : List UInt8) : decodeGroups front.length index (front ++ b :: rest) =
      (.error (.varintOverflow b), rest) := by
  induction front generalizing index with
  | nil => exact if_neg (Nat.not_lt.2 hb)
  | cons c front ih =>
    obtain ⟨hc, hfront⟩ := List.forall_mem_cons.1 hcontinued
    rw [List.length_cons, List.cons_append, decodeGroups, if_neg (Nat.not_lt.2 hc), ih hfront]
    rfl

/-- Groups are refused for no other reasons. -/
theorem refused_of_decodeGroups (h : decodeGroups more index bytes = (.error e, rest)) :
    Refused more index bytes e rest := by
  induction more generalizing index bytes with
  | zero =>
    cases bytes with
    | nil =>
      obtain ⟨he, rfl⟩ := Prod.mk.inj h
      obtain rfl := Except.error.inj he
      exact .cutShort (Nat.le_refl 0) fun c hc => absurd hc List.not_mem_nil
    | cons b tail =>
      rw [decodeGroups] at h
      split at h
      · cases (Prod.mk.inj h).1
      · rename_i hb
        obtain ⟨he, rfl⟩ := Prod.mk.inj h
        obtain rfl := Except.error.inj he
        have hnone : ∀ c ∈ ([] : List UInt8), 0x80 ≤ c.toNat := fun c hc => absurd hc List.not_mem_nil
        exact .overflow rfl hnone (Nat.le_of_not_lt hb)
  | succ more ih =>
    cases bytes with
    | nil =>
      obtain ⟨he, rfl⟩ := Prod.mk.inj h
      obtain rfl := Except.error.inj he
      exact .cutShort (Nat.zero_le _) fun c hc => absurd hc List.not_mem_nil
    | cons b tail =>
      rw [decodeGroups] at h
      split at h
      · cases (Prod.mk.inj h).1
      · rename_i hb
        rcases hd : decodeGroups more (index + 1) tail with ⟨e' | n, left⟩ <;> rw [hd] at h
        · obtain ⟨he, rfl⟩ := Prod.mk.inj h
          obtain rfl := Except.error.inj he
          have hrest : Refused more (index + 1) tail e' left := ih hd
          exact hrest.cons (Nat.le_of_not_lt hb)
        · cases (Prod.mk.inj h).1

/-- **Groups are refused exactly for these reasons**, and leave what is said. -/
theorem decodeGroups_eq_error_iff :
    decodeGroups more index bytes = (.error e, rest) ↔ Refused more index bytes e rest := by
  refine ⟨refused_of_decodeGroups, ?_⟩
  rintro (⟨hshort, hcontinued⟩ | ⟨rfl, hcontinued, hb⟩)
  · exact decodeGroups_of_short hshort hcontinued index
  · exact decodeGroups_of_wide hcontinued hb index rest

/-- A number is refused exactly for these reasons. -/
theorem decode_eq_error_iff : decode bytes = (.error e, rest) ↔ Refused 4 0 bytes e rest := by
  rw [← decodeGroups_eq_error_iff, decode]
  rcases decodeGroups 4 0 bytes with ⟨e' | n, left⟩
  · simp only [Except.map, Prod.mk.injEq, Except.error.injEq]
  · refine iff_of_false (fun h => ?_) fun h => ?_ <;> cases (Prod.mk.inj h).1

/-! ### Reading and writing -/

/-- **A number is read where one ends, and nowhere else.**  Five rounds in one word read whatever the
buffer holds, and never go on after the fifth.  They succeed exactly if one of the first five bytes is
without the high bit, all before it have it, and the fifth, if it comes to that, is at most `0x0f`; the
number is then the sum of the groups in their places, and just these bytes are taken off.  Otherwise it
is a `decode` fault: if all bytes have the high bit and there are fewer than five, nothing is left of the
buffer; and if the fifth is too large, all but five bytes are. -/
theorem read_exactly (bytes : List UInt8) :
    gather maxLength 0 0 bytes = some (decode bytes) ∧
    ((∃ v rest, decode bytes = (.ok v, rest)) ↔ ∃ i, EndsAt bytes i) ∧
    (∀ v rest, decode bytes = (.ok v, rest) ↔
      ∃ i, EndsAt bytes i ∧ rest = bytes.drop (i + 1) ∧
        v.toNat = ∑ j ∈ Finset.range (i + 1), (bytes.getD j 0).toNat % 128 * 128 ^ j) ∧
    (∀ e rest, decode bytes = (.error e, rest) ↔ Refused 4 0 bytes e rest) ∧
    ∀ e rest, decode bytes = (.error e, rest) → e.toFault.kind = .decode := by
  refine ⟨gather_five_rounds bytes, ⟨?_, ?_⟩, fun v rest => decode_eq_ok_iff,
    fun e rest => decode_eq_error_iff, fun e rest _ => e.kind_toFault⟩
  · rintro ⟨v, rest, h⟩
    obtain ⟨i, hends, -⟩ := decode_eq_ok_iff.1 h
    exact ⟨i, hends⟩
  · rintro ⟨i, hends⟩
    obtain ⟨hlt, hgrouped⟩ := endsAt_iff.1 hends
    -- The groups that there is room for fit the word.
    have hword : value (bytes.take (i + 1)) < 2 ^ 32 := value_lt hgrouped
    refine ⟨(value (bytes.take (i + 1))).toUInt32, bytes.drop (i + 1),
      decode_eq_ok_iff.2 ⟨i, hends, rfl, ?_⟩⟩
    rw [← value_take hlt]
    exact UInt32.toNat_ofNat_of_lt' hword

/-- Four bytes say that another one follows, and that has one bit too many. -/
example : decode [0xff, 0xff, 0xff, 0xff, 0x1f, 7] = (.error (.varintOverflow 0x1f), [7]) := rfl

/-- **What is written for a number is read back, and nothing shorter is.**  To shift the number out of a
word puts as many bytes at the end of a buffer as were told before.  They are read as the number,
whatever follows them, and that is left.  Whatever else is read as the same number takes at least as many
bytes off its buffer. -/
theorem shortest_round_trip (v : UInt32) (buffer rest : List UInt8) :
    spill buffer v = buffer ++ encode v ∧
    (encode v).length = length v ∧
    decode (encode v ++ rest) = (.ok v, rest) ∧
    ∀ bytes left, decode bytes = (.ok v, left) → length v + left.length ≤ bytes.length := by
  refine ⟨spill_eq buffer v, length_encode v, exact.read_append (spells_encode v) rest,
    fun bytes left h => ?_⟩
  obtain ⟨front, rfl, hspells⟩ := (exact bytes v left).1 h
  rw [List.length_append]
  exact Nat.add_le_add_right (length_le_of_spells hspells) _

end Varint
end Wire
end ClusterCache
