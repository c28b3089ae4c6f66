/-
# Hash functions

A cache or a lock table spreads its keys by a hash of 64 bits.  `fnv` takes the bytes of a key one
after another: it mixes the byte into the low bits and multiplies.
-/

import ClusterCache.Text.Utf8

namespace ClusterCache
namespace Hash

/-- The value for no bytes at all. -/
def fnvBasis : UInt64 := 0xcbf29ce484222325

/-- The multiplier. -/
def fnvPrime : UInt64 := 0x100000001b3

/-- The hash of a byte string. -/
def fnv (bytes : List UInt8) : UInt64 :=
  bytes.foldl (fun h b => (h ^^^ b.toUInt64) * fnvPrime) fnvBasis

/-- The eight bytes of a word, lowest first. -/
def wordBytes (n : UInt64) : List UInt8 := (List.range 8).map fun i => (n >>> (8 * i.toUInt64)).toUInt8

/-- The hash of a text: its bytes and then one that occurs in no text. -/
def ofText (s : String) : UInt64 := fnv (Utf8.encode s ++ [0xff])

/-- The hash of a word. -/
def ofWord (n : UInt64) : UInt64 := fnv (wordBytes n)

end Hash
end ClusterCache
