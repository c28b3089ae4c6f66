/-
# JSON values

The values that a JSON text can stand for.  Numbers keep the three forms that matter to whoever
takes them apart: whole numbers that fit 64 bits, negative ones that do, and doubles.  Objects keep
their members in order, equal keys included, so that a reader can tell a repeated key.
-/

namespace ClusterCache

/-- A number as it was written. -/
inductive Json.Number where
  /-- Digits alone, and the number fits 64 bits. -/
  | natural (n : UInt64)
  /-- A minus sign and digits alone, below zero, and the number fits 64 bits. -/
  | negative (n : Int64)
  /-- Any other number within the range of doubles. -/
  | double (f : Float)
  /-- A number beyond the range of doubles. -/
  | beyond

/-- A JSON value. -/
inductive Json where
  | null
  | bool (b : Bool)
  | number (n : Json.Number)
  | string (s : String)
  /-- A string with half of a surrogate pair, which no text can hold. -/
  | halfPair
  | array (items : List Json)
  /-- Members in order; a key is missing if it holds half of a surrogate pair. -/
  | object (members : List (Option String × Json))

namespace Json

/-- A natural number; one beyond 64 bits as the nearest double. -/
def nat (n : Nat) : Json :=
  .number (if n < UInt64.size then .natural n.toUInt64 else .double (Float.ofNat n))

/-- An integer; one beyond 64 bits as the nearest double. -/
def int (n : Int) : Json :=
  if 0 ≤ n then nat n.toNat
  else .number (if Int64.minValue.toInt ≤ n then .negative (Int64.ofInt n) else .double (Float.ofInt n))

/-- A double. -/
def float (f : Float) : Json := .number (.double f)

/-- An object with the members given. -/
def obj (members : List (String × Json)) : Json := .object (members.map fun (k, v) => (some k, v))

/-- A value that may be missing. -/
def option {α : Type} (f : α → Json) : Option α → Json
  | none => .null
  | some a => f a

end Json
end ClusterCache
