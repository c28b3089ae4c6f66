/-
# Writing JSON text

`Json.compact` writes a value without any blank, `Json.pretty` with one member or item to a line and
two blanks of indentation for each level.  Both escape the quote, the backslash and the controls, and
nothing else.
-/

import ClusterCache.Json
import ClusterCache.Decimal.Layout
import ClusterCache.Text.Quoted

namespace ClusterCache
namespace Json

/-- In JSON text a double has an exponent below `1e-5` and from `1e16` on, with its sign, and a
whole number ends in `.0`. -/
def floatLayout : Decimal.Layout where
  tie := .toEven
  positional := some (-5, 16)
  pointZero := true
  plus := true

/-- The text of a number; there is none for the values of a double that are no numbers. -/
def Number.text : Number → String
  | .natural n => toString n.toNat
  | .negative n => toString n.toInt
  | .double f => if f.isNaN || f.isInf then "null" else floatLayout.text f
  | .beyond => "null"

/-- How one character is written in a string. -/
def escape (c : Char) : String :=
  match c with
  | '"' => "\\\""
  | '\\' => "\\\\"
  | '\x08' => "\\b"
  | '\x0c' => "\\f"
  | '\n' => "\\n"
  | '\r' => "\\r"
  | '\t' => "\\t"
  | c =>
    if c < ' ' then
      (if c.toNat < 16 then "\\u000" else "\\u00") ++ Text.hexDigits c.toNat
    else c.toString

/-- A string in quotes. -/
def stringText (s : String) : String :=
  "\"" ++ s.foldl (fun acc c => acc ++ escape c) "" ++ "\""

mutual

/-- The parts of a value without any blank. -/
def pieces : Json → List String
  | .null => ["null"]
  | .bool b => [if b then "true" else "false"]
  | .number n => [n.text]
  | .string s => [stringText s]
  | .halfPair => [stringText ""]
  | .array [] => ["[]"]
  | .array (item :: items) => "[" :: pieces item ++ piecesOfItems items
  | .object [] => ["\x7b\x7d"]
  | .object (m :: ms) => "\x7b" :: piecesOfMember m ++ piecesOfMembers ms

/-- The items after the first one, and the end of the array. -/
def piecesOfItems : List Json → List String
  | [] => ["]"]
  | item :: items => "," :: pieces item ++ piecesOfItems items

/-- A key and its value. -/
def piecesOfMember : Option String × Json → List String
  | (key, v) => stringText (key.getD "") :: ":" :: pieces v

/-- The members after the first one, and the end of the object. -/
def piecesOfMembers : List (Option String × Json) → List String
  | [] => ["\x7d"]
  | m :: ms => "," :: piecesOfMember m ++ piecesOfMembers ms

end

/-- A value without any blank. -/
def compact (j : Json) : String := String.join (pieces j)

mutual

/-- A value over several lines, each but the first behind `indent`. -/
def prettyAt (indent : String) : Json → String
  | .array (item :: items) =>
    "[\n" ++ indent ++ "  " ++ prettyAt (indent ++ "  ") item ++
      prettyItems (indent ++ "  ") items ++ "\n" ++ indent ++ "]"
  | .object (m :: ms) =>
    "\x7b\n" ++ indent ++ "  " ++ prettyMember (indent ++ "  ") m ++
      prettyMembers (indent ++ "  ") ms ++ "\n" ++ indent ++ "\x7d"
  | .array [] => "[]"
  | .object [] => "\x7b\x7d"
  | .null => "null"
  | .bool b => if b then "true" else "false"
  | .number n => n.text
  | .string s => stringText s
  | .halfPair => stringText ""

/-- The items after the first one. -/
def prettyItems (indent : String) : List Json → String
  | [] => ""
  | item :: items => ",\n" ++ indent ++ prettyAt indent item ++ prettyItems indent items

/-- A key and its value. -/
def prettyMember (indent : String) : Option String × Json → String
  | (key, v) => stringText (key.getD "") ++ ": " ++ prettyAt indent v

/-- The members after the first one. -/
def prettyMembers (indent : String) : List (Option String × Json) → String
  | [] => ""
  | m :: ms => ",\n" ++ indent ++ prettyMember indent m ++ prettyMembers indent ms

end

/-- A value over several lines. -/
def pretty (j : Json) : String := prettyAt "" j

end Json
end ClusterCache
