/-!
# Cursors in settings files

A cursor is the text that is left and the column it starts at. Lines end at a
line feed, a next line, a line separator or a paragraph separator; carriage
returns have been replaced before.

## Main definitions

* `Cursor`: what is left, and its column.
* `Cursor.skip`: over spaces, comments and line ends.
* `Cursor.atMarker`, `Cursor.atEnd`: whether the document ends here.
* `folded`: what line ends inside a scalar stand for.
-/

namespace Delimited.Yaml

/-- Whether a character ends a line. -/
def isBreak (c : Char) : Bool :=
  c == '\n' || c == '\u0085' || c == '\u2028' || c == '\u2029'

/-- What a line end stands for: a next line is a line feed. -/
def normalBreak (c : Char) : Char := if c = '\u0085' then '\n' else c

/-- Whether nothing, a blank or a line end stands here. -/
def isGapOrEnd : Option Char → Bool
  | none => true
  | some c => c == ' ' || c == '\t' || isBreak c

/-- What is left, and the column it starts at. -/
structure Cursor where
  /-- The text that is left. -/
  rest : List Char
  /-- The column, from zero. -/
  column : Nat := 0
  deriving DecidableEq, Repr

/-- Whether three equal characters and then a gap start a list. -/
def marks (c : Char) : List Char → Bool
  | x :: y :: z :: rest => x == c && y == c && z == c && isGapOrEnd rest.head?
  | _ => false

/-- Whether a line starts with the marker of a document. -/
def isMarker (line : List Char) : Bool := marks '-' line || marks '.' line

namespace Cursor

/-- Whether the marker of a document stands here. -/
def atMarker (c : Cursor) : Bool := c.column == 0 && isMarker c.rest

/-- Whether the document ends here. -/
def atEnd (c : Cursor) : Bool := c.rest.isEmpty || c.atMarker

/-- The cursor after the next `n` characters of a line. -/
def forward (c : Cursor) (n : Nat) : Cursor := ⟨c.rest.drop n, c.column + n⟩

/-- The cursor after spaces. -/
def skipSpaces (c : Cursor) : Cursor :=
  c.forward (c.rest.takeWhile (· == ' ')).length

/-- Goes over spaces, comments and line ends, and tells whether a line ended. -/
def skipFrom (comment crossed : Bool) (column : Nat) : List Char → Bool × Cursor
  | [] => (crossed, ⟨[], column⟩)
  | c :: cs =>
    if isBreak c then skipFrom false true 0 cs
    else if comment || c == '#' then skipFrom true crossed (column + 1) cs
    else if c = ' ' then skipFrom false crossed (column + 1) cs
    else (crossed, ⟨c :: cs, column⟩)

/-- Goes to the next thing that is no space, comment or line end, and tells
whether a line ended on the way. -/
def skip (c : Cursor) : Bool × Cursor := skipFrom false false c.column c.rest

end Cursor

/-- What the line ends between two parts of a scalar stand for: a space for one
line feed, and the further ones as they are. -/
def folded : List Char → List Char
  | [] => []
  | first :: more => if first ≠ '\n' then first :: more else if more = [] then [' '] else more

end Delimited.Yaml
