/-
# Where bytes stop being UTF-8

A byte string is UTF-8 or it is not: `decode` takes the verdict from `String`.  For bytes that are
not, `Malformed` says where the first bad sequence begins and how long it is, or that the bytes end
inside a sequence that is good so far.
-/

namespace ClusterCache
namespace Utf8

/-- The first place at which bytes stop being UTF-8. -/
structure Malformed where
  /-- Where the bad sequence begins. -/
  start : Nat
  /-- How many bytes are bad; missing if more bytes could still make the sequence good. -/
  length : Option Nat
  deriving DecidableEq, Repr

namespace Malformed

/-- The place in words. -/
def message (m : Malformed) : String :=
  match m.length with
  | some n => s!"invalid utf-8 sequence of {n} bytes from index {m.start}"
  | none => s!"incomplete utf-8 byte sequence from index {m.start}"

end Malformed

/-- Whether a byte continues a sequence. -/
def continues (b : UInt8) : Bool := 0x80 ≤ b && b ≤ 0xBF

/-- Whether `second` may follow `first` in a sequence of three or four bytes: the shortest form
only, no surrogates, nothing above the last code point. -/
def follows (first second : UInt8) : Bool :=
  if first = 0xE0 then 0xA0 ≤ second && second ≤ 0xBF
  else if first = 0xED then 0x80 ≤ second && second ≤ 0x9F
  else if first = 0xF0 then 0x90 ≤ second && second ≤ 0xBF
  else if first = 0xF4 then 0x80 ≤ second && second ≤ 0x8F
  else continues second

/-- The first bad place in bytes that begin at `index`. -/
def malformedFrom (index : Nat) : List UInt8 → Option Malformed
  | [] => none
  | a :: rest =>
    if a < 0x80 then malformedFrom (index + 1) rest
    else if a < 0xC2 || 0xF4 < a then some ⟨index, some 1⟩
    else match rest with
      | [] => some ⟨index, none⟩
      | b :: rest =>
        if a < 0xE0 then
          if continues b then malformedFrom (index + 2) rest else some ⟨index, some 1⟩
        else if !follows a b then some ⟨index, some 1⟩
        else match rest with
          | [] => some ⟨index, none⟩
          | c :: rest =>
            if !continues c then some ⟨index, some 2⟩
            else if a < 0xF0 then malformedFrom (index + 3) rest
            else match rest with
              | [] => some ⟨index, none⟩
              | d :: rest =>
                if continues d then malformedFrom (index + 4) rest else some ⟨index, some 3⟩

/-- The bytes of a text. -/
def encode (s : String) : List UInt8 := s.toByteArray.data.toList

/-- The text whose bytes these are, or the first place at which they are no text. -/
def decode (bytes : List UInt8) : Except Malformed String :=
  match String.fromUTF8? ⟨bytes.toArray⟩ with
  | some s => .ok s
  | none => .error ((malformedFrom 0 bytes).getD ⟨0, none⟩)

/-- A text is read back from its bytes. -/
theorem decode_encode (s : String) : decode (encode s) = .ok s := by
  have h : (⟨(encode s).toArray⟩ : ByteArray) = s.toByteArray := by simp [encode]
  simp only [decode, h, String.fromUTF8?, dif_pos s.isValidUTF8]
  rfl

/-- Only the bytes of a text are read as that text. -/
theorem encode_of_decode {bytes : List UInt8} {s : String} (h : decode bytes = .ok s) :
    encode s = bytes := by
  unfold decode at h
  split at h
  · rename_i t ht
    cases h
    rw [String.fromUTF8?] at ht
    split at ht
    · cases ht
      simp [encode, String.fromUTF8]
    · cases ht
  · cases h

/-- The number of bytes of a text. -/
theorem length_encode (s : String) : (encode s).length = s.utf8ByteSize := by
  rfl

end Utf8
end ClusterCache
