/-
# Texts with their length in front

A text goes onto the wire as the number of its bytes, in two bytes with the high one first, and then
the bytes.  Nothing is written for a text whose length does not fit.  A reader takes the length off
the buffer before it looks at the bytes, and the bytes before it looks at what they say.
-/

import ClusterCache.Wire.Error

namespace ClusterCache
namespace Wire
namespace SizedText

/-- How many bytes a text takes, with its length in front. -/
def length (s : String) : Nat := 2 + s.utf8ByteSize

/-- A length as two bytes, high byte first. -/
def lengthBytes (n : Nat) : List UInt8 := [(n / 256).toUInt8, (n % 256).toUInt8]

/-- Writes a text with its length in front. -/
def encode (s : String) : Written :=
  if maxTextLength < s.utf8ByteSize then (.error (.textTooLong s.utf8ByteSize), [])
  else (.ok (), lengthBytes s.utf8ByteSize ++ Utf8.encode s)

/-- Reads a text from the front of the bytes. -/
def decode : List UInt8 → Outcome String
  | high :: low :: rest =>
    let n := 256 * high.toNat + low.toNat
    let body := rest.take n
    if body.length < n then (.error (.endOfBuffer "text bytes" n rest.length), rest)
    else ((Utf8.decode body).mapError ReadError.notUtf8, rest.drop n)
  | short => (.error (.endOfBuffer "text length" 2 short.length), short)

end SizedText
end Wire
end ClusterCache
