/-
# Outlines of values

An `Outline` says how a value is built: a word, or a group of outlines with a name and brackets
around it.  `Outline.line` writes it on one line, as in `Point { x: 1, y: 2 }`, and
`Outline.lines` with every member of a group on a line of its own, indented by four blanks.
-/

import ClusterCache.Text.Quoted
import ClusterCache.Decimal.Layout

namespace ClusterCache
namespace Text

/-- The brackets of a group: braces stand off from what they hold, the others do not. -/
inductive Brackets where
  | braces
  | parentheses
  | square
  deriving DecidableEq, Repr

mutual

/-- How a value is built. -/
inductive Outline where
  /-- A word that is not taken apart. -/
  | word (text : String)
  /-- A name, possibly empty, and members in brackets. -/
  | group (name : String) (brackets : Brackets) (members : Members)

/-- The members of a group, each with a label, which is empty where members go by position. -/
inductive Members where
  | nil
  | cons (label : String) (value : Outline) (rest : Members)

end

namespace Members

/-- Labelled members in order. -/
def ofFields : List (String × Outline) → Members
  | [] => .nil
  | (label, value) :: rest => .cons label value (ofFields rest)

/-- Members by position. -/
def ofList (values : List Outline) : Members := ofFields (values.map fun v => ("", v))

end Members

namespace Outline

/-- A record: its name and its labelled fields in braces. -/
def record (name : String) (fields : List (String × Outline)) : Outline :=
  .group name .braces (.ofFields fields)

/-- A name and its members in parentheses. -/
def tuple (name : String) (values : List Outline) : Outline :=
  .group name .parentheses (.ofList values)

/-- A list in square brackets. -/
def list (values : List Outline) : Outline := .group "" .square (.ofList values)

/-- A set in braces. -/
def set (values : List Outline) : Outline := .group "" .braces (.ofList values)

/-- A text, in quotes. -/
def text (s : String) : Outline := .word (quoted s)

/-- A natural number. -/
def nat (n : Nat) : Outline := .word (toString n)

/-- A truth value. -/
def bool (b : Bool) : Outline := .word (if b then "true" else "false")

/-- In outlines a double has an exponent below `1e-4` and from `1e16` on, and a whole number ends
in `.0`. -/
def floatLayout : Decimal.Layout where
  tie := .up
  positional := some (-4, 16)
  pointZero := true
  plus := false

/-- A double. -/
def float (f : Float) : Outline := .word (floatLayout.text f)

/-- A value that may be missing. -/
def option : Option Outline → Outline
  | none => .word "None"
  | some v => tuple "Some" [v]

end Outline

/-- The opening and closing bracket. -/
def Brackets.pair : Brackets → String × String
  | .braces => ("\x7b", "\x7d")
  | .parentheses => ("(", ")")
  | .square => ("[", "]")

/-- What stands between a name and the brackets of its group. -/
def Brackets.gap (b : Brackets) (name : String) : String :=
  if b = .braces && name ≠ "" then " " else ""

/-- What stands between brackets and the members on one line. -/
def Brackets.pad (b : Brackets) (name : String) : String := b.gap name

/-- A label in front of its value. -/
def labelled (label : String) : String := if label = "" then "" else label ++ ": "

mutual

/-- The outline on one line. -/
def Outline.line : Outline → String
  | .word text => text
  | .group name b .nil => name ++ b.gap name ++ b.pair.1 ++ b.pair.2
  | .group name b (.cons label value rest) =>
    name ++ b.gap name ++ b.pair.1 ++ b.pad name ++ labelled label ++ value.line ++ rest.line ++
      b.pad name ++ b.pair.2

/-- The members that follow a first one, on the same line. -/
def Members.line : Members → String
  | .nil => ""
  | .cons label value rest => ", " ++ labelled label ++ value.line ++ rest.line

end

mutual

/-- The outline over several lines; `indent` is put in front of every line but the first. -/
def Outline.lines (indent : String) : Outline → String
  | .word text => text
  | .group name b .nil => name ++ b.gap name ++ b.pair.1 ++ b.pair.2
  | .group name b (.cons label value rest) =>
    name ++ b.gap name ++ b.pair.1 ++ "\n" ++
      (indent ++ "    " ++ labelled label ++ value.lines (indent ++ "    ") ++ ",\n") ++
      rest.lines (indent ++ "    ") ++ indent ++ b.pair.2

/-- The members that follow a first one, each on lines of its own. -/
def Members.lines (indent : String) : Members → String
  | .nil => ""
  | .cons label value rest =>
    (indent ++ labelled label ++ value.lines indent ++ ",\n") ++ rest.lines indent

end

end Text
end ClusterCache
