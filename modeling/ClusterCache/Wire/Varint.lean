/-
# Numbers in groups of seven bits

A 32-bit number goes onto the wire in groups of seven bits, lowest group first, one byte each; the
high bit of a byte says that another one follows.  Five bytes are enough, and the fifth has room for
four bits.
-/

import ClusterCache.Wire.Error

namespace ClusterCache
namespace Wire
namespace Varint

/-- The most bytes that a number takes. -/
def maxLength : Nat := 5

/-- The groups of `n`, at most `more` of them before the last. -/
def groups : Nat → Nat → List UInt8
  | 0, n => [n.toUInt8]
  | more + 1, n => if n < 128 then [n.toUInt8] else (n % 128 + 128).toUInt8 :: groups more (n / 128)

/-- The bytes of a number. -/
def encode (v : UInt32) : List UInt8 := groups 4 v.toNat

/-- How many bytes a number takes. -/
def length (v : UInt32) : Nat :=
  if v.toNat < 0x80 then 1
  else if v.toNat < 0x4000 then 2
  else if v.toNat < 0x200000 then 3
  else if v.toNat < 0x10000000 then 4
  else 5

/-- Reads the groups from number `index` on, at most `more` before the last, which has only four
bits; the value is in units of the group at hand. -/
def decodeGroups : (more index : Nat) → List UInt8 → Outcome Nat
  | _, index, [] => (.error (.endOfBuffer "varint" (index + 1) index), [])
  | 0, _, b :: rest =>
    if b.toNat < 16 then (.ok b.toNat, rest) else (.error (.varintOverflow b), rest)
  | more + 1, index, b :: rest =>
    if b.toNat < 128 then (.ok b.toNat, rest)
    else
      let (high, rest) := decodeGroups more (index + 1) rest
      (high.map fun h => (b.toNat - 128) + 128 * h, rest)

/-- Reads a number from the front of the bytes. -/
def decode (bytes : List UInt8) : Outcome UInt32 :=
  let (n, rest) := decodeGroups 4 0 bytes
  (n.map Nat.toUInt32, rest)

end Varint
end Wire
end ClusterCache
