/-
# Quoted text

A text in double quotes, with a backslash form for every character that would not show as itself:
the quote and the backslash, the controls with a letter of their own, and, by code point in braces,
characters without a shape and characters that would attach to the quote or to their neighbour.
-/

import ClusterCache.Text.Printable

namespace ClusterCache
namespace Text

/-- Which characters a quoted text treats with more care than the rest. -/
structure QuoteStyle where
  /-- Whether the single quote gets a backslash too. -/
  singleQuote : Bool
  /-- Whether attaching characters are escaped everywhere, not only in front. -/
  everyExtender : Bool

/-- Quotes as a program writes a text value: the single quote stands for itself, attaching
characters never do. -/
def QuoteStyle.value : QuoteStyle := ⟨false, true⟩

/-- Quotes as a message is repeated: both quotes get a backslash, and attaching characters stand for
themselves after the first character. -/
def QuoteStyle.message : QuoteStyle := ⟨true, false⟩

/-- A code point in lower-case hexadecimal digits. -/
def hexDigits (n : Nat) : String := String.ofList (Nat.toDigits 16 n)

/-- The code-point form of a character. -/
def codePointEscape (c : Char) : String := "\\u\x7b" ++ hexDigits c.toNat ++ "\x7d"

/-- How one character is written between quotes; `front` tells whether it is the first one. -/
def QuoteStyle.escape (style : QuoteStyle) (front : Bool) (c : Char) : String :=
  match c with
  | '\x00' => "\\0"
  | '\t' => "\\t"
  | '\r' => "\\r"
  | '\n' => "\\n"
  | '\\' => "\\\\"
  | '"' => "\\\""
  | '\'' => if style.singleQuote then "\\'" else "'"
  | c =>
    if (style.everyExtender || front) && isExtender c then codePointEscape c
    else if ' ' ≤ c ∧ c ≤ '~' then c.toString
    else if isUnprintable c then codePointEscape c
    else c.toString

/-- The characters of a text, escaped one by one. -/
def QuoteStyle.escapeAll (style : QuoteStyle) (s : String) : String :=
  match s.toList with
  | [] => ""
  | c :: cs => cs.foldl (fun acc c => acc ++ style.escape false c) (style.escape true c)

/-- A text in quotes. -/
def quoted (s : String) : String := "\"" ++ QuoteStyle.value.escapeAll s ++ "\""

/-- A repeated message in quotes. -/
def quotedMessage (s : String) : String := "\"" ++ QuoteStyle.message.escapeAll s ++ "\""

end Text
end ClusterCache
