/-
# What readers accept

A reader is *exact* for a form if it takes bytes of that form off the front, whatever follows them,
and accepts nothing else (`Wire.Exact`).  Bytes of such a form never begin others of it
(`Wire.Exact.eq_of_begins`), so several of them in a row are told apart.

Numbers and texts are read exactly (`Wire.Varint.exact`, `Wire.SizedText.exact`).  A number has more
than one form, since a reader does not mind groups of zeros after the last one that counts; what is
written for it is one of them (`Wire.Varint.spells_encode`).
-/

import Mathlib.Algebra.Group.Nat.Defs
import ClusterCache.Wire.SizedText
import ClusterCache.Wire.Varint

namespace ClusterCache
namespace Wire

/-! ### Exact readers -/

section Exact

variable {α : Type} {read : List UInt8 → Outcome α} {Form : List UInt8 → α → Prop}
  {bytes front other rest : List UInt8} {a b : α}

/-- A reader takes bytes of one form off the front, and accepts nothing else. -/
def Exact (read : List UInt8 → Outcome α) (Form : List UInt8 → α → Prop) : Prop :=
  ∀ bytes a rest, read bytes = (.ok a, rest) ↔ ∃ front, bytes = front ++ rest ∧ Form front a

/-- What follows is left unread. -/
theorem Exact.read_append (h : Exact read Form) (hfront : Form front a) (rest : List UInt8) :
    read (front ++ rest) = (.ok a, rest) := (h _ _ _).2 ⟨front, rfl, hfront⟩

/-- **Bytes of the form do not begin others of it.** -/
theorem Exact.eq_of_begins (h : Exact read Form) (hfront : Form front a) (hother : Form other b)
    (hbegins : front <+: other) : front = other := by
  obtain ⟨rest, rfl⟩ := hbegins
  have hwhole := h.read_append hother []
  rw [List.append_nil, h.read_append hfront rest] at hwhole
  obtain ⟨-, rfl⟩ := Prod.mk.inj hwhole
  exact (List.append_nil front).symm

end Exact

/-! ### Numbers -/

namespace Varint

variable {more index n : Nat} {bytes rest : List UInt8} {b : UInt8}

/-- Groups of which at most `more` come before the last: the high bit says of each but the last that
another one follows, and the last one that there is room for has only four bits. -/
structure Grouped (more : Nat) (bytes : List UInt8) : Prop where
  ne_nil : bytes ≠ []
  short : bytes.length ≤ more + 1
  continued : ∀ b ∈ bytes.dropLast, 0x80 ≤ b.toNat
  ended : ∀ b ∈ bytes.getLast?, b.toNat < 0x80
  narrow : ∀ b ∈ bytes[more]?, b.toNat ≤ 0x0f

/-- What it takes for bytes to be the groups of a number, byte by byte. -/
theorem grouped_iff_all : Grouped more bytes ↔ bytes ≠ [] ∧ bytes.length ≤ more + 1 ∧
    (bytes.dropLast.all fun b => 0x80 ≤ b.toNat) = true ∧
    (bytes.getLast?.all fun b => b.toNat < 0x80) = true ∧
    (bytes[more]?.all fun b => b.toNat ≤ 0x0f) = true := by
  simp only [List.all_eq_true, Option.all_eq_true, decide_eq_true_eq]
  constructor
  · intro h
    exact ⟨h.ne_nil, h.short, h.continued, h.ended, h.narrow⟩
  · rintro ⟨hne, hshort, hcontinued, hended, hnarrow⟩
    exact ⟨hne, hshort, hcontinued, hended, hnarrow⟩

instance (more : Nat) (bytes : List UInt8) : Decidable (Grouped more bytes) :=
  decidable_of_iff _ grouped_iff_all.symm

/-- The number in the low seven bits of the groups, lowest group first. -/
def value : List UInt8 → Nat
  | [] => 0
  | b :: rest => b.toNat % 128 + 128 * value rest

/-- The bytes of a number: at most five groups. -/
def Spells (bytes : List UInt8) (v : UInt32) : Prop := Grouped 4 bytes ∧ value bytes = v.toNat

instance (bytes : List UInt8) (v : UInt32) : Decidable (Spells bytes v) :=
  inferInstanceAs (Decidable (Grouped 4 bytes ∧ value bytes = v.toNat))

/-- No number has no groups. -/
theorem not_grouped_nil : ¬ Grouped more [] := fun h => h.ne_nil rfl

/-- If no group may come before the last, there is one byte, and it has at most four bits. -/
theorem grouped_zero_cons_iff : Grouped 0 (b :: rest) ↔ b.toNat < 16 ∧ rest = [] := by
  constructor
  · intro h
    have hb := h.narrow b rfl
    have hlength := h.short
    rw [List.length_cons] at hlength
    exact ⟨by omega, List.length_eq_zero_iff.1 (by omega)⟩
  · rintro ⟨hb, rfl⟩
    refine ⟨List.cons_ne_nil _ _, by simp, by simp, fun b' h => ?_, fun b' h => ?_⟩
    · obtain rfl : b = b' := Option.some.inj h
      omega
    · obtain rfl : b = b' := Option.some.inj h
      omega

/-- A group either is the last or has the high bit and others after it. -/
theorem grouped_succ_cons_iff : Grouped (more + 1) (b :: rest) ↔
    b.toNat < 128 ∧ rest = [] ∨ 128 ≤ b.toNat ∧ Grouped more rest := by
  cases rest with
  | nil =>
    constructor
    · exact fun h => Or.inl ⟨h.ended b rfl, rfl⟩
    · rintro (⟨hb, -⟩ | ⟨-, h⟩)
      · refine ⟨List.cons_ne_nil _ _, by simp, by simp, fun b' h => ?_, fun b' h => by simp at h⟩
        obtain rfl := Option.some.inj h
        exact hb
      · exact absurd h not_grouped_nil
  | cons b' rest =>
    have hlast : (b :: b' :: rest).getLast? = (b' :: rest).getLast? := List.getLast?_cons_cons
    constructor
    · intro h
      have hshort := h.short
      rw [List.length_cons] at hshort
      refine Or.inr ⟨h.continued b (by simp), List.cons_ne_nil _ _, by omega, fun c hc => ?_,
        fun c hc => h.ended c (hlast.trans hc), fun c hc => h.narrow c hc⟩
      exact h.continued c (List.mem_cons_of_mem b hc)
    · rintro (⟨-, h⟩ | ⟨hb, h⟩)
      · cases h
      · have hshort := h.short
        refine ⟨List.cons_ne_nil _ _, by rw [List.length_cons]; omega, fun c hc => ?_,
          fun c hc => h.ended c (hlast.symm.trans hc), fun c hc => h.narrow c hc⟩
        rcases List.mem_cons.1 hc with rfl | hc
        · exact hb
        · exact h.continued c hc

/-- A single group is the number itself. -/
theorem value_singleton (b : UInt8) (hb : b.toNat < 128) : value [b] = b.toNat := by
  simp only [value]
  omega

/-- A group before others counts for itself, and they count 128-fold. -/
theorem value_cons_of_le (hb : 128 ≤ b.toNat) :
    value (b :: rest) = (b.toNat - 128) + 128 * value rest := by
  have hlt := b.toNat_lt
  simp only [value]
  omega

/-- The groups that there is room for hold four bits and seven times `more`. -/
theorem value_lt (h : Grouped more bytes) : value bytes < 16 * 128 ^ more := by
  induction more generalizing bytes with
  | zero =>
    cases bytes with
    | nil => exact absurd h not_grouped_nil
    | cons b rest =>
      obtain ⟨hb, rfl⟩ := grouped_zero_cons_iff.1 h
      rw [value_singleton b (by omega)]
      omega
  | succ more ih =>
    rw [Nat.pow_succ]
    cases bytes with
    | nil => exact absurd h not_grouped_nil
    | cons b rest =>
      rcases grouped_succ_cons_iff.1 h with ⟨hb, rfl⟩ | ⟨hb, hrest⟩
      · have hpos : 0 < 128 ^ more := Nat.pow_pos (by omega)
        rw [value_singleton b hb]
        omega
      · have hlt := ih hrest
        have hbyte := b.toNat_lt
        rw [value_cons_of_le hb]
        omega

/-- Groups are read, whatever follows them. -/
theorem decodeGroups_append {front : List UInt8} (h : Grouped more front) (index : Nat)
    (rest : List UInt8) : decodeGroups more index (front ++ rest) = (.ok (value front), rest) := by
  induction more generalizing front index with
  | zero =>
    cases front with
    | nil => exact absurd h not_grouped_nil
    | cons b tail =>
      obtain ⟨hb, rfl⟩ := grouped_zero_cons_iff.1 h
      rw [value_singleton b (by omega), List.singleton_append, decodeGroups, if_pos hb]
  | succ more ih =>
    cases front with
    | nil => exact absurd h not_grouped_nil
    | cons b tail =>
      rcases grouped_succ_cons_iff.1 h with ⟨hb, rfl⟩ | ⟨hb, htail⟩
      · rw [value_singleton b hb, List.singleton_append, decodeGroups, if_pos hb]
      · have hmore : ¬ b.toNat < 128 := Nat.not_lt.2 hb
        have hrest := ih htail (index + 1)
        rw [List.cons_append, decodeGroups, if_neg hmore, hrest, value_cons_of_le hb]
        rfl

/-- Whatever is read is groups. -/
theorem grouped_of_decodeGroups (h : decodeGroups more index bytes = (.ok n, rest)) :
    ∃ front, bytes = front ++ rest ∧ Grouped more front ∧ value front = n := by
  induction more generalizing index bytes n with
  | zero =>
    cases bytes with
    | nil => cases (Prod.mk.inj h).1
    | cons b tail =>
      rw [decodeGroups] at h
      split at h
      · rename_i hb
        obtain ⟨hn, rfl⟩ := Prod.mk.inj h
        obtain rfl := Except.ok.inj hn
        have hgrouped : Grouped 0 [b] := grouped_zero_cons_iff.2 ⟨hb, rfl⟩
        exact ⟨[b], rfl, hgrouped, value_singleton b (by omega)⟩
      · cases (Prod.mk.inj h).1
  | succ more ih =>
    cases bytes with
    | nil => cases (Prod.mk.inj h).1
    | cons b tail =>
      rw [decodeGroups] at h
      split at h
      · rename_i hb
        obtain ⟨hn, rfl⟩ := Prod.mk.inj h
        obtain rfl := Except.ok.inj hn
        have hgrouped : Grouped (more + 1) [b] := grouped_succ_cons_iff.2 (Or.inl ⟨hb, rfl⟩)
        exact ⟨[b], rfl, hgrouped, value_singleton b hb⟩
      · rename_i hb
        have hle : 128 ≤ b.toNat := Nat.le_of_not_lt hb
        rcases hd : decodeGroups more (index + 1) tail with ⟨e | high, rest'⟩ <;> rw [hd] at h
        · cases (Prod.mk.inj h).1
        · obtain ⟨hn, rfl⟩ := Prod.mk.inj h
          obtain ⟨front, rfl, hgrouped, rfl⟩ := ih hd
          have hlonger : Grouped (more + 1) (b :: front) :=
            grouped_succ_cons_iff.2 (Or.inr ⟨hle, hgrouped⟩)
          refine ⟨b :: front, rfl, hlonger, ?_⟩
          rw [value_cons_of_le hle]
          exact Except.ok.inj hn

/-- **Numbers are read exactly.** -/
theorem exact : Exact decode Spells := by
  intro bytes v rest
  constructor
  · intro h
    unfold decode at h
    rcases hd : decodeGroups 4 0 bytes with ⟨e | n, rest'⟩ <;> rw [hd] at h
    · cases (Prod.mk.inj h).1
    · obtain ⟨hv, rfl⟩ := Prod.mk.inj h
      obtain rfl : n.toUInt32 = v := Except.ok.inj hv
      obtain ⟨front, rfl, hgrouped, rfl⟩ := grouped_of_decodeGroups hd
      have hlt : value front < 2 ^ 32 := value_lt hgrouped
      exact ⟨front, rfl, hgrouped, (UInt32.toNat_ofNat_of_lt' hlt).symm⟩
  · rintro ⟨front, rfl, hgrouped, hvalue⟩
    have hword : v.toNat.toUInt32 = v := UInt32.ofNat_toNat
    rw [decode, decodeGroups_append hgrouped, hvalue]
    show (Except.ok v.toNat.toUInt32, rest) = _
    rw [hword]

/-- The groups of a number that there is room for. -/
theorem grouped_groups (h : n < 16 * 128 ^ more) :
    Grouped more (groups more n) ∧ value (groups more n) = n := by
  have hbyte : ∀ {m : Nat}, m < 256 → m.toUInt8.toNat = m := fun h => UInt8.toNat_ofNat_of_lt' h
  induction more generalizing n with
  | zero =>
    have hn : n < 16 := by simpa using h
    have hbyte := hbyte (m := n) (by omega)
    rw [groups]
    exact ⟨grouped_zero_cons_iff.2 ⟨by omega, rfl⟩, by rw [value_singleton _ (by omega), hbyte]⟩
  | succ more ih =>
    rw [groups]
    split
    · have hbyte := hbyte (m := n) (by omega)
      exact ⟨grouped_succ_cons_iff.2 (Or.inl ⟨by omega, rfl⟩),
        by rw [value_singleton _ (by omega), hbyte]⟩
    · rw [Nat.pow_succ] at h
      obtain ⟨hgrouped, hvalue⟩ := ih (n := n / 128) (by omega)
      have hbyte := hbyte (m := n % 128 + 128) (by omega)
      refine ⟨grouped_succ_cons_iff.2 (Or.inr ⟨by omega, hgrouped⟩), ?_⟩
      rw [value_cons_of_le (by omega), hvalue, hbyte]
      omega

/-- What is written for a number is a form of it. -/
theorem spells_encode (v : UInt32) : Spells (encode v) v := grouped_groups v.toNat_lt

end Varint

/-! ### Texts -/

namespace SizedText

variable {bytes : List UInt8} {s : String}

/-- The bytes of a text with its length in front: two bytes for the length, the high one first, and
as many more, which are the text in UTF-8. -/
def Spells (bytes : List UInt8) (s : String) : Prop :=
  ∃ high low body, bytes = high :: low :: body ∧
    body.length = 256 * high.toNat + low.toNat ∧ Utf8.encode s = body

/-- **Texts are read exactly.** -/
theorem exact : Exact decode Spells := by
  intro bytes s rest
  constructor
  · intro h
    match bytes with
    | [] | [_] => cases (Prod.mk.inj h).1
    | high :: low :: tail =>
      simp only [decode] at h
      split at h
      · cases (Prod.mk.inj h).1
      · rename_i hlength
        rw [List.length_take] at hlength
        obtain ⟨hs, rfl⟩ := Prod.mk.inj h
        cases hd : Utf8.decode (tail.take (256 * high.toNat + low.toNat)) with
        | error e =>
          rw [hd] at hs
          cases hs
        | ok t =>
          rw [hd] at hs
          obtain rfl : t = s := Except.ok.inj hs
          have hbody := Utf8.encode_of_decode hd
          refine ⟨high :: low :: tail.take (256 * high.toNat + low.toNat), ?_, high, low, _, rfl, ?_,
            hbody⟩
          · rw [List.cons_append, List.cons_append, List.take_append_drop]
          · rw [List.length_take]
            omega
  · rintro ⟨front, rfl, high, low, body, rfl, hlength, rfl⟩
    simp only [List.cons_append, decode]
    rw [← hlength, List.take_left, List.drop_left, if_neg (Nat.lt_irrefl _), Utf8.decode_encode]
    rfl

/-- What is written for a text is its form. -/
theorem spells_encode (h : s.utf8ByteSize ≤ maxTextLength) :
    encode s = (.ok (), lengthBytes s.utf8ByteSize ++ Utf8.encode s) ∧
      Spells (lengthBytes s.utf8ByteSize ++ Utf8.encode s) s := by
  refine ⟨if_neg (Nat.not_lt.2 h), _, _, _, rfl, ?_, rfl⟩
  rw [maxTextLength] at h
  have hhigh : (s.utf8ByteSize / 256).toUInt8.toNat = s.utf8ByteSize / 256 :=
    UInt8.toNat_ofNat_of_lt' (show _ < 256 by omega)
  have hlow : (s.utf8ByteSize % 256).toUInt8.toNat = s.utf8ByteSize % 256 :=
    UInt8.toNat_ofNat_of_lt' (show _ < 256 by omega)
  show (Utf8.encode s).length = _
  rw [hhigh, hlow, Utf8.length_encode]
  omega

end SizedText
end Wire
end ClusterCache
