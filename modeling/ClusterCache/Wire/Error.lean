/-
# What can be wrong with bytes on the wire

Every reason for which a writer refuses a value or a reader refuses bytes, and the fault that
reports it.  Readers fail with `decode` faults and writers with `encode` faults; `toFault` adds the
numbers that locate the trouble.
-/

import ClusterCache.Fault
import ClusterCache.Text.Utf8

namespace ClusterCache
namespace Wire

/-- The longest text, in bytes, whose length fits the two bytes in front of it. -/
def maxTextLength : Nat := 65535

/-- Why bytes could not be read. -/
inductive ReadError where
  /-- The buffer holds fewer bytes than what is being read needs. -/
  | endOfBuffer (reading : String) (required remaining : Nat)
  /-- The fifth byte of a number would reach beyond 32 bits. -/
  | varintOverflow (last : UInt8)
  /-- The bytes of a text are not UTF-8. -/
  | notUtf8 (at_ : Utf8.Malformed)
  /-- The entry `index` of `count` could not be read. -/
  | entry (index count : Nat) (why : ReadError)
  /-- Bytes are left after the last entry. -/
  | trailing (length : Nat)
  deriving DecidableEq, Repr

/-- Why a value could not be written. -/
inductive WriteError where
  /-- A text has too many bytes. -/
  | textTooLong (length : Nat)
  /-- A name in a set has too many bytes. -/
  | nameTooLong (length : Nat)
  /-- A set has more names than can be counted. -/
  | tooManyNames
  deriving DecidableEq, Repr

/-- The fault for a buffer that ends too early. -/
def truncated (reading : String) (required remaining : Nat) : Fault :=
  (((Fault.new .decode "unexpected end of buffer").withContext "reading" reading).withContext
    "required" (toString required)).withContext "remaining" (toString remaining)

/-- The fault that reports why bytes could not be read. -/
def ReadError.toFault : ReadError → Fault
  | .endOfBuffer reading required remaining => truncated reading required remaining
  | .varintOverflow last =>
    (Fault.new .decode "varint overflows u32").withContext "last byte" (toString last.toNat)
  | .notUtf8 m => (Fault.new .decode "text is not valid UTF-8").withCause (.messages m.message [])
  | .entry index count why =>
    (why.toFault.withContext "entry" (toString index)).withContext "count" (toString count)
  | .trailing length =>
    (Fault.new .decode "trailing bytes after name set").withContext "len" (toString length)

/-- A fault about a length beyond the longest one. -/
def tooLong (message : String) (length : Nat) : Fault :=
  ((Fault.new .encode message).withContext "len" (toString length)).withContext
    "max" (toString maxTextLength)

/-- The fault that reports why a value could not be written. -/
def WriteError.toFault : WriteError → Fault
  | .textTooLong length => tooLong "text is too long for its length prefix" length
  | .nameTooLong length => tooLong "name is too long for its length prefix" length
  | .tooManyNames => (Fault.new .encode "too many names").withCause
      (.messages "out of range integral type conversion attempted" [])

/-- Bytes that cannot be read are a `decode` fault, whatever the reason. -/
theorem ReadError.kind_toFault (e : ReadError) : e.toFault.kind = .decode := by
  induction e with
  | entry index count why ih => exact ih
  | _ => rfl

/-- A value that cannot be written is an `encode` fault, whatever the reason. -/
theorem WriteError.kind_toFault (e : WriteError) : e.toFault.kind = .encode := by
  cases e <;> rfl

/-- What a reader answers: a value or the reason why there is none, and the bytes not consumed. -/
abbrev Outcome (α : Type) := Except ReadError α × List UInt8

/-- What a writer answers: whether it came to its end, and the bytes that it has written. -/
abbrev Written := Except WriteError Unit × List UInt8

end Wire
end ClusterCache
