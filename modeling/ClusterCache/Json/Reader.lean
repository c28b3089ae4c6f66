/-
# Reading JSON text

`Json.parse?` reads one value and nothing but blanks around it.  A string may hold any character but
a control; escapes by code unit are joined to characters afterwards, and a unit without its partner
makes the string unusable but not the text around it.
-/

import ClusterCache.Json.Numeral

namespace ClusterCache
namespace Json

/-- Drops the blanks in front of a text. -/
def skip (cs : List Char) : List Char :=
  cs.dropWhile fun c => c = ' ' || c = '\n' || c = '\t' || c = '\r'

/-! ### Strings -/

/-- A piece of a string: a character, or a code unit written by number. -/
inductive Piece where
  | char (c : Char)
  | unit (n : Nat)

/-- The value of a hexadecimal digit. -/
def hexValue? (c : Char) : Option Nat :=
  if c.isDigit then some (c.toNat - '0'.toNat)
  else if 'a' ≤ c ∧ c ≤ 'f' then some (c.toNat - 'a'.toNat + 10)
  else if 'A' ≤ c ∧ c ≤ 'F' then some (c.toNat - 'A'.toNat + 10)
  else none

/-- The number that four hexadecimal digits stand for. -/
def unit? (a b c d : Char) : Option Nat := do
  let a ← hexValue? a
  let b ← hexValue? b
  let c ← hexValue? c
  let d ← hexValue? d
  some (((a * 16 + b) * 16 + c) * 16 + d)

/-- The character that a letter after a backslash stands for. -/
def escape? : Char → Option Char
  | '"' => some '"'
  | '\\' => some '\\'
  | '/' => some '/'
  | 'b' => some '\x08'
  | 'f' => some '\x0c'
  | 'n' => some '\n'
  | 'r' => some '\r'
  | 't' => some '\t'
  | _ => none

/-- The pieces of a string up to its closing quote. -/
def pieces? : List Char → Option (List Piece × List Char)
  | [] => none
  | '"' :: rest => some ([], rest)
  | '\\' :: 'u' :: a :: b :: c :: d :: rest => do
    let n ← unit? a b c d
    let (ps, rest) ← pieces? rest
    some (.unit n :: ps, rest)
  | '\\' :: c :: rest => do
    let c ← escape? c
    let (ps, rest) ← pieces? rest
    some (.char c :: ps, rest)
  | c :: rest => do
    if c < ' ' then none
    let (ps, rest) ← pieces? rest
    some (.char c :: ps, rest)

/-- Joins pieces to characters; a code unit of a surrogate pair needs its partner beside it. -/
def join? : List Piece → Option (List Char)
  | [] => some []
  | .char c :: ps => (join? ps).map (c :: ·)
  | .unit n :: .unit m :: ps =>
    if 0xD800 ≤ n ∧ n < 0xDC00 then
      if 0xDC00 ≤ m ∧ m < 0xE000 then
        (join? ps).map (Char.ofNat (0x10000 + (n - 0xD800) * 0x400 + (m - 0xDC00)) :: ·)
      else none
    else if 0xDC00 ≤ n ∧ n < 0xE000 then none
    else (join? (.unit m :: ps)).map (Char.ofNat n :: ·)
  | .unit n :: ps =>
    if 0xD800 ≤ n ∧ n < 0xE000 then none else (join? ps).map (Char.ofNat n :: ·)

/-- A string after its opening quote; its text is missing if half of a surrogate pair is in it. -/
def quotedString? (cs : List Char) : Option (Option String × List Char) :=
  (pieces? cs).map fun (ps, rest) => ((join? ps).map String.ofList, rest)

/-! ### Values -/

mutual

/-- The value in front of a text; `fuel` bounds how many values and separators are read. -/
def value? : (fuel : Nat) → List Char → Option (Json × List Char)
  | 0, _ => none
  | fuel + 1, cs =>
    match skip cs with
    | 'n' :: 'u' :: 'l' :: 'l' :: rest => some (.null, rest)
    | 't' :: 'r' :: 'u' :: 'e' :: rest => some (.bool true, rest)
    | 'f' :: 'a' :: 'l' :: 's' :: 'e' :: rest => some (.bool false, rest)
    | '"' :: rest =>
      (quotedString? rest).map fun (s, rest) =>
        (match s with
          | some s => .string s
          | none => .halfPair, rest)
    | '[' :: rest =>
      match skip rest with
      | ']' :: rest => some (.array [], rest)
      | rest => (items? fuel rest).map fun (items, rest) => (.array items, rest)
    | '\x7b' :: rest =>
      match skip rest with
      | '\x7d' :: rest => some (.object [], rest)
      | rest => (members? fuel rest).map fun (members, rest) => (.object members, rest)
    | rest => (number? rest).map fun (n, rest) => (.number n, rest)

/-- The items of an array up to its closing bracket, at least one. -/
def items? : (fuel : Nat) → List Char → Option (List Json × List Char)
  | 0, _ => none
  | fuel + 1, cs => do
    let (item, rest) ← value? fuel cs
    match skip rest with
    | ',' :: rest =>
      let (items, rest) ← items? fuel rest
      some (item :: items, rest)
    | ']' :: rest => some ([item], rest)
    | _ => none

/-- The members of an object up to its closing brace, at least one. -/
def members? : (fuel : Nat) → List Char → Option (List (Option String × Json) × List Char)
  | 0, _ => none
  | fuel + 1, cs =>
    match skip cs with
    | '"' :: rest => do
      let (key, rest) ← quotedString? rest
      match skip rest with
      | ':' :: rest =>
        let (item, rest) ← value? fuel rest
        match skip rest with
        | ',' :: rest =>
          let (members, rest) ← members? fuel rest
          some ((key, item) :: members, rest)
        | '\x7d' :: rest => some ([(key, item)], rest)
        | _ => none
      | _ => none
    | _ => none

end

/-- The value that a text stands for. -/
def parse? (s : String) : Option Json := do
  let cs := s.toList
  let (v, rest) ← value? (cs.length + 1) cs
  if (skip rest).isEmpty then some v else none

end Json
end ClusterCache
