import Delimited.Text.Printable

/-!
# Quoted texts in messages

A message shows a text between quotes, with the quote, the backslash and every
character that is not printable escaped. Single quotes are used unless the text
has a single quote and no double quote.

## Main definitions

* `hex`: a number in a fixed number of lower-case hexadecimal digits.
* `escapeCode`: the escape of a character by its code point.
* `quoted`: a text as messages show it.
* `quotedList`: a list of texts as messages show it.
-/

namespace Delimited.Text

/-- A number in base sixteen, filled with zeros to a width. -/
def hex (width n : Nat) : List Char :=
  let digits := Nat.toDigits 16 n
  List.replicate (width - digits.length) '0' ++ digits

/-- The escape of a code point, as short as its size allows. -/
def escapeCode (n : Nat) : List Char :=
  if n ≤ 0xFF then '\\' :: 'x' :: hex 2 n
  else if n ≤ 0xFFFF then '\\' :: 'u' :: hex 4 n
  else '\\' :: 'U' :: hex 8 n

/-- A character of a quoted text, between quotes of the given kind. -/
def quotedChar (quote c : Char) : List Char :=
  if c = quote ∨ c = '\\' then ['\\', c]
  else if c = '\n' then ['\\', 'n']
  else if c = '\r' then ['\\', 'r']
  else if c = '\t' then ['\\', 't']
  else if isPrintable c then [c]
  else escapeCode c.toNat

/-- The quote that goes around a text. -/
def quoteFor (s : String) : Char :=
  if s.contains '\'' && !s.contains '"' then '"' else '\''

/-- A text as messages show it. -/
def quoted (s : String) : String :=
  let q := quoteFor s
  String.ofList (q :: s.toList.flatMap (quotedChar q) ++ [q])

/-- A list of texts as messages show it. -/
def quotedList (items : List String) : String :=
  "[" ++ ", ".intercalate (items.map quoted) ++ "]"

end Delimited.Text
