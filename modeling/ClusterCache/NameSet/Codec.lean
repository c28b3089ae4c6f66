/-
# Name sets on the wire

A set goes onto the wire as the number of its names and then every name with its length in front, in
any order.  All names are looked at before the first byte is written, so a set that cannot be sent
leaves nothing behind.  A reader takes the names as they come and lets equal ones collapse.
-/

import ClusterCache.Total
import ClusterCache.NameSet
import ClusterCache.Wire.Varint
import ClusterCache.Wire.SizedText

namespace ClusterCache
namespace NameSet

open Wire

/-- The number by which nodes know that a name set follows. -/
def typeId : Nat := 1304

/-- How many bytes names take, with their number in front. -/
def lengthOfNames (names : List String) : Nat :=
  Varint.length names.length.toUInt32 + total SizedText.length names

/-- Writes names one after another, up to the first that cannot be written. -/
def encodeEach : List String → Written
  | [] => (.ok (), [])
  | name :: rest =>
    match SizedText.encode name with
    | (.error e, out) => (.error e, out)
    | (.ok _, out) =>
      let (result, more) := encodeEach rest
      (result, out ++ more)

/-- Writes the number of names and then the names, in the order given, unless there are too many
names or one of them is too long. -/
def encodeNames (names : List String) : Written :=
  if UInt32.size ≤ names.length then (.error .tooManyNames, [])
  else match names.find? fun name => maxTextLength < name.utf8ByteSize with
    | some name => (.error (.nameTooLong name.utf8ByteSize), [])
    | none =>
      let (result, out) := encodeEach names
      (result, Varint.encode names.length.toUInt32 ++ out)

/-- Reads the last `left` of `count` names. -/
def decodeEach (count : Nat) : (left : Nat) → List UInt8 → Outcome (List String)
  | 0, bytes => (.ok [], bytes)
  | left + 1, bytes =>
    match SizedText.decode bytes with
    | (.error e, rest) => (.error (.entry (count - (left + 1)) count e), rest)
    | (.ok name, rest) =>
      let (names, rest) := decodeEach count left rest
      (names.map (name :: ·), rest)

/-- Reads a number and that many names. -/
def decodeNames (bytes : List UInt8) : Outcome (List String) :=
  match Varint.decode bytes with
  | (.error e, rest) => (.error e, rest)
  | (.ok count, rest) => decodeEach count.toNat count.toNat rest

/-- How many bytes the set takes. -/
def encodedLength (s : NameSet) : Nat := lengthOfNames s.toList

/-- Writes the set. -/
def encode (s : NameSet) : Written := encodeNames s.toList

/-- Reads a set from the front of the bytes. -/
def decode (bytes : List UInt8) : Outcome NameSet :=
  let (names, rest) := decodeNames bytes
  (names.map NameSet.ofList, rest)

/-- The bytes of the set alone. -/
def toBytes (s : NameSet) : Except WriteError (List UInt8) :=
  match s.encode with
  | (.error e, _) => .error e
  | (.ok _, out) => .ok out

/-- Reads a set from bytes that hold one set and nothing else. -/
def ofBytes (bytes : List UInt8) : Except ReadError NameSet :=
  match decode bytes with
  | (.error e, _) => .error e
  | (.ok s, []) => .ok s
  | (.ok _, rest) => .error (.trailing rest.length)

end NameSet
end ClusterCache
