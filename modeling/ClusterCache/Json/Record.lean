/-
# Records in JSON

A record is written as an object with its fields as members, or as an array of its fields in order.
Members that are no fields are passed over; a field that comes twice is an error.  A choice among
names is written as the name, or as an object with the name as its only key and nothing as its value.
-/

import ClusterCache.Json

namespace ClusterCache
namespace Json

/-- Puts the members of an object into the slots of the fields. -/
def slots? (fields : List String) : List (Option String × Json) → Option (List (Option Json))
  | [] => some (fields.map fun _ => none)
  | (none, _) :: _ => none
  | (some key, v) :: rest => do
    let slots ← slots? fields rest
    if key ∈ fields then
      if (fields.zip slots).any fun (f, slot) => f = key && slot.isSome then none
      else some ((fields.zip slots).map fun (f, slot) => if f = key then some v else slot)
    else some slots

/-- The values of the fields of a record, in order; missing ones are `none`. -/
def record? (fields : List String) : Json → Option (List (Option Json))
  | .object members => slots? fields members
  | .array items =>
    if items.length ≤ fields.length then
      some (items.map some ++ List.replicate (fields.length - items.length) none)
    else none
  | _ => none

/-- The name that a choice stands for. -/
def choice? : Json → Option String
  | .string s => some s
  | .object [(some key, .null)] => some key
  | _ => none

/-- A natural number of 64 bits. -/
def natural? : Json → Option UInt64
  | .number (.natural n) => some n
  | _ => none

/-- An integer of 64 bits with a sign. -/
def integer? : Json → Option Int64
  | .number (.natural n) => if n.toNat < 0x8000000000000000 then some n.toInt64 else none
  | .number (.negative n) => some n
  | _ => none

/-- A double; whole numbers are rounded to one. -/
def double? : Json → Option Float
  | .number (.natural n) => some n.toFloat
  | .number (.negative n) => some n.toFloat
  | .number (.double f) => some f
  | _ => none

/-- A truth value. -/
def bool? : Json → Option Bool
  | .bool b => some b
  | _ => none

/-- A text. -/
def string? : Json → Option String
  | .string s => some s
  | _ => none

/-- A field that must be there. -/
def required {α : Type} (read : Json → Option α) : Option Json → Option α
  | none => none
  | some v => read v

/-- A field that has a default. -/
def optional {α : Type} (read : Json → Option α) (default : α) : Option Json → Option α
  | none => some default
  | some v => read v

end Json
end ClusterCache
