import Delimited.Yaml.Plain
import Delimited.Yaml.Text

/-!
# Writing scalars

A text is written plain if it reads back as that text, else between single
quotes, and between double quotes if it holds characters that need an escape.
Long texts are folded: a line ends at a space once it is too long.

## Main definitions

* `Style`: plain or quoted.
* `styleOf`: the style of a text.
* `printPlain`, `printSingle`, `printDouble`: the three ways to write a text.
* `printScalar`: a text in its style.
-/

namespace Delimited.Yaml

/-- How a text is written. -/
inductive Style where
  /-- As it is. -/
  | plain
  /-- Between single quotes. -/
  | single
  /-- Between double quotes. -/
  | double
  deriving DecidableEq, Repr

/-- Whether a character can only be written with an escape. -/
def needsEscape (c : Char) : Bool :=
  let n := c.toNat
  !(c == '\n' || decide (0x20 ≤ n ∧ n ≤ 0x7E) ||
    (decide (n = 0x85 ∨ (0xA0 ≤ n ∧ n ≤ 0xD7FF) ∨ (0xE000 ≤ n ∧ n ≤ 0xFFFD) ∨
      (0x10000 ≤ n ∧ n < 0x10FFFF)) && c != '\uFEFF'))

/-- Whether two characters with some properties follow one another. -/
def hasNeighbours (p q : Char → Bool) : List Char → Bool
  | c :: d :: cs => (p c && q d) || hasNeighbours p q (d :: cs)
  | _ => false

/-- Whether a space stands next to a line end. -/
def hasSpaceAtBreak (cs : List Char) : Bool :=
  hasNeighbours (· == ' ') isBreak cs || hasNeighbours isBreak (· == ' ') cs

/-- Whether a text starts with something that has another meaning at the start. -/
def startsOtherwise (cs : List Char) : Bool :=
  "---".toList.isPrefixOf cs || "...".toList.isPrefixOf cs ||
    match cs with
    | [] => true
    | c :: rest =>
      "#,[]\x7b\x7d&*!|>'\"%@`".contains c ||
        ((c == '?' || c == ':' || c == '-') && isGapOrEnd rest.head?)

/-- Whether a colon before a gap, or a hash after one, stands in a text. -/
def hasIndicator (cs : List Char) : Bool :=
  hasNeighbours (· == ':') (fun c => isGapOrEnd (some c)) cs || cs.getLast? == some ':' ||
    hasNeighbours (fun c => isGapOrEnd (some c)) (· == '#') cs

/-- Whether a text can be written as it is. -/
def isPlain (cs : List Char) : Bool :=
  Plain.isText cs && !startsOtherwise cs && !hasIndicator cs && !cs.any isBreak &&
    cs.head? != some ' ' && cs.getLast? != some ' '

/-- The style of a text. -/
def styleOf (cs : List Char) : Style :=
  if cs.any needsEscape || hasSpaceAtBreak cs then .double
  else if isPlain cs then .plain
  else .single

/-- The column after which a line is folded. -/
def width : Nat := 80

/-- The column in which a folded line goes on. -/
def continuation : Nat := 4

/-- The spaces before a line that goes on. -/
def margin : List Char := List.replicate continuation ' '

/-- Writes a plain text from a column on. -/
def printPlain (column : Nat) (afterSpace : Bool) : List Char → List Char
  | [] => []
  | c :: cs =>
    if c = ' ' ∧ !afterSpace ∧ cs.head? ≠ some ' ' ∧ width < column then
      '\n' :: margin ++ printPlain continuation true cs
    else c :: printPlain (column + 1) (c == ' ') cs

/-- What stands before the current character of a text. -/
inductive Before where
  /-- The start of the text. -/
  | start
  /-- A space. -/
  | space
  /-- A line end. -/
  | break
  /-- Another character. -/
  | other
  deriving DecidableEq

/-- Writes a text between single quotes, from a column on. -/
def printSingle (column : Nat) (before : Before) : List Char → List Char
  | [] => ['\'']
  | c :: cs =>
    if c = '\'' then '\'' :: '\'' :: printSingle (column + 2) .other cs
    else if isBreak c then
      let extra := if before ≠ .break ∧ c = '\n' then ['\n'] else []
      if (cs.head?.map isBreak).getD false then extra ++ c :: printSingle 0 .break cs
      else extra ++ c :: margin ++ printSingle continuation .break cs
    else if c = ' ' then
      if before ≠ .start ∧ before ≠ .space ∧ cs ≠ [] ∧ cs.head? ≠ some ' ' ∧ width < column then
        '\n' :: margin ++ printSingle continuation .space cs
      else ' ' :: printSingle (column + 1) .space cs
    else c :: printSingle (column + 1) .other cs

/-- The letters of the escapes of one letter. -/
def letters : List (Char × Char) := [
  ('\x00', '0'), ('\x07', 'a'), ('\x08', 'b'), ('\t', 't'), ('\n', 'n'), ('\x0B', 'v'),
  ('\x0C', 'f'), ('\r', 'r'), ('\x1B', 'e'), ('"', '"'), ('\\', '\\'), ('\u0085', 'N'),
  ('\u2028', 'L'), ('\u2029', 'P')]

/-- A number in base sixteen with capital letters, filled with zeros to a width. -/
def capitalHex (width n : Nat) : List Char :=
  let digits := (Nat.toDigits 16 n).map Char.toUpper
  List.replicate (width - digits.length) '0' ++ digits

/-- The escape of a character between double quotes, if it is not written as it is. -/
def escape? (c : Char) : Option (List Char) :=
  match letters.lookup c with
  | some letter => some ['\\', letter]
  | none =>
    let n := c.toNat
    if (0x20 ≤ n ∧ n ≤ 0x7E) ∨
        (c ≠ '\uFEFF' ∧ ((0xA0 ≤ n ∧ n ≤ 0xD7FF) ∨ (0xE000 ≤ n ∧ n ≤ 0xFFFD))) then none
    else if n ≤ 0xFF then some ('\\' :: 'x' :: capitalHex 2 n)
    else if n ≤ 0xFFFF then some ('\\' :: 'u' :: capitalHex 4 n)
    else some ('\\' :: 'U' :: capitalHex 8 n)

/-- Writes a text between double quotes, from a column on. A line ends with a
backslash, before a space or next to an escape, and never at the first or the
last character; a space at the start of a line is escaped. -/
def printDouble (column : Nat) (first afterEscape : Bool) : List Char → List Char
  | [] => ['"']
  | c :: cs =>
    let inner := !first && !cs.isEmpty
    match escape? c with
    | some text =>
      if inner && decide (width + 1 < column + text.length) then
        let lead := if cs.head? = some ' ' then ['\\'] else []
        text ++ '\\' :: '\n' :: margin ++ lead ++ printDouble (continuation + lead.length) false true cs
      else text ++ printDouble (column + text.length) false true cs
    | none =>
      if inner && (c == ' ' || afterEscape) && decide (width < column) then
        let lead := if c = ' ' then ['\\'] else []
        '\\' :: '\n' :: margin ++ lead ++ c ::
          printDouble (continuation + lead.length + 1) false false cs
      else c :: printDouble (column + 1) false false cs

/-- Writes a text in its style, from a column on. -/
def printScalar (column : Nat) (cs : List Char) : List Char :=
  match styleOf cs with
  | .plain => printPlain column false cs
  | .single => '\'' :: printSingle (column + 1) .start cs
  | .double => '"' :: printDouble (column + 1) true false cs

end Delimited.Yaml
