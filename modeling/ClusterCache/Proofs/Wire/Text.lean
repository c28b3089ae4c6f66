/-
# Texts at the front of a buffer

A text has one form only, which is what is written for it (`SizedText.spells_iff`).  So a reader accepts
exactly what a writer puts at the end of a buffer, text and bytes alike.  Everything else is refused in
one of three ways, which differ in what is taken off the buffer: nothing, the length, or the length and
the bytes (`SizedText.Unreadable`).  Both directions together are `SizedText.read_written_iff`.
-/

import ClusterCache.Proofs.NameSet.Length

namespace ClusterCache

namespace Utf8

variable {bytes : List UInt8}

/-- Bytes are refused exactly if they are the bytes of no text. -/
theorem exists_error_iff : (∃ m, decode bytes = .error m) ↔ ∀ s, encode s ≠ bytes := by
  constructor
  · rintro ⟨m, hm⟩ s rfl
    rw [decode_encode] at hm
    cases hm
  · intro hno
    cases h : decode bytes with
    | error m => exact ⟨m, rfl⟩
    | ok s =>
      have hs : encode s = bytes := encode_of_decode h
      exact absurd hs (hno s)

end Utf8

namespace Wire
namespace SizedText

open NameSet (writeText writeText_eq)

variable {s : String} {high low : UInt8} {buffer bytes front left rest out : List UInt8}

/-! ### What is written is the only form -/

/-- Two bytes are those of the length that they say. -/
theorem lengthBytes_eq (high low : UInt8) :
    lengthBytes (256 * high.toNat + low.toNat) = [high, low] := by
  have hlow := low.toNat_lt
  rw [lengthBytes, show (256 * high.toNat + low.toNat) / 256 = high.toNat by omega,
    show (256 * high.toNat + low.toNat) % 256 = low.toNat by omega]
  exact congrArg₂ (fun a b => [a, b]) UInt8.ofNat_toNat UInt8.ofNat_toNat

/-- A text can be written if it is not too long, and then it is its length and its bytes. -/
theorem encode_eq_ok_iff : encode s = (.ok (), out) ↔
    s.utf8ByteSize ≤ maxTextLength ∧ out = lengthBytes s.utf8ByteSize ++ Utf8.encode s := by
  rw [encode]
  split
  · rename_i hlong
    refine iff_of_false (fun h => ?_) fun h => Nat.not_lt.2 h.1 hlong
    cases (Prod.mk.inj h).1
  · rename_i hshort
    have hle : s.utf8ByteSize ≤ maxTextLength := Nat.le_of_not_lt hshort
    rw [Prod.mk.injEq, and_iff_right rfl, and_iff_right hle, eq_comm]

/-- **Bytes are the form of a text exactly if they are written for it.** -/
theorem spells_iff : Spells bytes s ↔ encode s = (.ok (), bytes) := by
  constructor
  · intro h
    have hshort := le_of_spells h
    obtain ⟨high, low, body, rfl, hlength, rfl⟩ := h
    rw [encode_eq_ok_iff, ← Utf8.length_encode, hlength, lengthBytes_eq]
    exact ⟨hlength ▸ hshort, rfl⟩
  · intro h
    obtain ⟨hshort, rfl⟩ := encode_eq_ok_iff.1 h
    exact (spells_encode hshort).2

/-- A text is read exactly from what is written for it, and what follows is left. -/
theorem decode_eq_ok_iff : decode bytes = (.ok s, left) ↔
    ∃ out, bytes = out ++ left ∧ encode s = (.ok (), out) := by
  rw [exact]
  simp only [spells_iff]

/-! ### Writing at the end of a buffer -/

/-- A text can be written into a buffer if it can be written. -/
theorem writeText_eq_ok_iff :
    writeText buffer s = (.ok (), buffer ++ out) ↔ encode s = (.ok (), out) := by
  rw [writeText_eq, Prod.mk.injEq, List.append_cancel_left_eq, Prod.ext_iff]

/-- Too long a text is not begun. -/
theorem writeText_eq_error_iff {e : WriteError} : writeText buffer s = (.error e, left) ↔
    maxTextLength < s.utf8ByteSize ∧ e = .textTooLong s.utf8ByteSize ∧ left = buffer := by
  rw [writeText]
  split
  · rename_i hlong
    simp only [Prod.mk.injEq, Except.error.injEq, eq_comm, hlong, true_and]
  · rename_i hshort
    refine iff_of_false (fun h => ?_) fun h => hshort h.1
    cases (Prod.mk.inj h).1

/-! ### Where there is no text -/

/-- Bytes that do not begin with a text, and what is left of them when that shows. -/
inductive Unreadable : List UInt8 → List UInt8 → Prop
  /-- There are not even two bytes for the length, and they are left. -/
  | noLength {bytes : List UInt8} : bytes.length < 2 → Unreadable bytes bytes
  /-- There are fewer bytes than the length says, and these are left. -/
  | cutShort {high low : UInt8} {rest : List UInt8} :
      rest.length < 256 * high.toNat + low.toNat → Unreadable (high :: low :: rest) rest
  /-- There are as many bytes as the length says, but they are no text; what follows them is left. -/
  | notUtf8 {high low : UInt8} {body rest : List UInt8} :
      body.length = 256 * high.toNat + low.toNat → (∀ s, Utf8.encode s ≠ body) →
      Unreadable (high :: low :: (body ++ rest)) rest

/-- A reader that has the length looks whether there are as many bytes, and then at what they say. -/
theorem decode_cons_cons (high low : UInt8) (tail : List UInt8) {n : Nat}
    (hn : n = 256 * high.toNat + low.toNat) : decode (high :: low :: tail) =
      if tail.length < n then (.error (.endOfBuffer "text bytes" n tail.length), tail)
      else ((Utf8.decode (tail.take n)).mapError ReadError.notUtf8, tail.drop n) := by
  subst hn
  have hcount : (tail.take (256 * high.toNat + low.toNat)).length < 256 * high.toNat + low.toNat ↔
      tail.length < 256 * high.toNat + low.toNat := by
    rw [List.length_take]
    omega
  simp only [decode, hcount]

/-- **Bytes are refused in these three ways and no others.** -/
theorem exists_error_iff : (∃ e, decode bytes = (.error e, left)) ↔ Unreadable bytes left := by
  constructor
  · rintro ⟨e, h⟩
    match bytes with
    | [] | [_] =>
      obtain ⟨-, rfl⟩ := Prod.mk.inj h
      exact .noLength (by simp)
    | high :: low :: tail =>
      rw [decode_cons_cons high low tail rfl] at h
      split at h
      · rename_i hlength
        obtain ⟨-, rfl⟩ := Prod.mk.inj h
        exact .cutShort hlength
      · rename_i hlength
        obtain ⟨he, rfl⟩ := Prod.mk.inj h
        have hbody : ∃ m, Utf8.decode (tail.take (256 * high.toNat + low.toNat)) = .error m := by
          cases hd : Utf8.decode (tail.take (256 * high.toNat + low.toNat)) with
          | error m => exact ⟨m, rfl⟩
          | ok s =>
            rw [hd] at he
            cases he
        have hrefused : Unreadable (high :: low :: (_ ++ tail.drop (256 * high.toNat + low.toNat))) _ :=
          .notUtf8 (List.length_take_of_le (Nat.le_of_not_lt hlength)) (Utf8.exists_error_iff.1 hbody)
        rwa [List.take_append_drop] at hrefused
  · rintro (hshort | hshort | ⟨hlength, hno⟩)
    · match bytes with
      | [] | [_] => exact ⟨_, rfl⟩
      | _ :: _ :: _ => exact absurd hshort (by simp)
    · exact ⟨_, (decode_cons_cons _ _ _ rfl).trans (if_pos hshort)⟩
    · obtain ⟨m, hm⟩ := Utf8.exists_error_iff.2 hno
      refine ⟨.notUtf8 m, ?_⟩
      rw [decode_cons_cons _ _ _ hlength, List.take_left, List.drop_left, hm, if_neg (by simp)]
      rfl

/-! ### Both directions -/

/-- **A text is read exactly if it was written.**  To put a text with its length at the end of a buffer
fails if and only if it has more than 65535 bytes; it is an `encode` fault then, and the buffer is as it
was.  Otherwise there are as many bytes behind the buffer as were told before, and they are read as the
text, whatever follows them.  Conversely the bytes that a text is read from are those that are written
for it.  If none is read, it is a `decode` fault, and what is left tells why: all bytes if there were not
two for the length, all but these two if fewer followed than the length says, and what follows the text
if its bytes are no text. -/
theorem read_written_iff (s : String) (buffer rest bytes : List UInt8) :
    ((∃ e left, writeText buffer s = (.error e, left)) ↔ 65535 < s.utf8ByteSize) ∧
    (∀ e left, writeText buffer s = (.error e, left) → e.toFault.kind = .encode ∧ left = buffer) ∧
    (s.utf8ByteSize ≤ 65535 → ∃ out, writeText buffer s = (.ok (), buffer ++ out) ∧
      out.length = length s ∧ decode (out ++ rest) = (.ok s, rest)) ∧
    (∀ t left, decode bytes = (.ok t, left) ↔
      ∃ out, bytes = out ++ left ∧ writeText buffer t = (.ok (), buffer ++ out)) ∧
    (∀ left, (∃ e, decode bytes = (.error e, left)) ↔ Unreadable bytes left) ∧
    ∀ e left, decode bytes = (.error e, left) → e.toFault.kind = .decode := by
  refine ⟨⟨?_, fun hlong => ?_⟩, fun e left h => ?_, fun hshort => ?_, fun t left => ?_,
    fun left => exists_error_iff, fun e left _ => e.kind_toFault⟩
  · rintro ⟨e, left, h⟩
    exact (writeText_eq_error_iff.1 h).1
  · exact ⟨_, _, writeText_eq_error_iff.2 ⟨hlong, rfl, rfl⟩⟩
  · exact ⟨e.kind_toFault, (writeText_eq_error_iff.1 h).2.2⟩
  · obtain ⟨hwritten, hspells⟩ := spells_encode hshort
    have hlength := length_of_spells hspells
    have hread := exact.read_append hspells rest
    exact ⟨_, writeText_eq_ok_iff.2 hwritten, hlength, hread⟩
  · rw [decode_eq_ok_iff]
    simp only [writeText_eq_ok_iff]

end SizedText
end Wire
end ClusterCache
