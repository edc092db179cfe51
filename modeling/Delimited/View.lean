import Delimited.Text.Quoted

/-!
# Views over text

A view is a text together with an offset into it. Advancing a view makes a new
view over the same text, so a position in the text is never lost.

The offset is an integer. Offsets between zero and the length of the text are
the ordinary ones. A negative offset counts from the end of the text where a
part of the text is cut, and an offset past the end leaves nothing to read.

## Main definitions

* `View`: a text and an offset.
* `View.rest`: the text from the offset on.
* `View.size`: the number of characters left, negative past the end.
* `View.peek`: the next character, if there is one.
* `View.advance`: the view after some characters.
* `View.location`: line and column of the offset, both from one.
-/

namespace Delimited

/-- A fault is a request that has no answer, as opposed to a rejected input. -/
inductive Fault where
  /-- The length of a view past the end of its text was asked for. -/
  | negativeLength
  /-- A character before the start of the text was asked for. -/
  | indexOutOfRange
  /-- A parser of one character was asked for, and the text has another length. -/
  | notOneCharacter (shown : String)
  /-- Something else stood where a parser was needed. -/
  | notAParser (shown : String)
  /-- Something of another kind stood where a text was needed. -/
  | notAText (kind : String)
  deriving DecidableEq, Repr, Inhabited

/-- The wording of a fault. -/
def Fault.message : Fault → String
  | .negativeLength => "__len__() should return >= 0"
  | .indexOutOfRange => "string index out of range"
  | .notOneCharacter shown => "char() expects a single character, got " ++ shown
  | .notAParser shown => "Not a parser: " ++ shown
  | .notAText kind => "Expected str or TextInput, got " ++ kind

/-- A text and an offset into it. -/
structure View where
  /-- The whole text. -/
  text : Array Char
  /-- Where reading goes on. -/
  offset : Int := 0
  deriving DecidableEq, Repr

namespace View

/-- The view at the start of a text. -/
def ofString (s : String) (offset : Int := 0) : View :=
  ⟨s.toList.toArray, offset⟩

/-- Where a cut at `i` falls in a text of length `n`: negative positions count
from the end, and every position is moved into the text. -/
def cut (n : Nat) (i : Int) : Nat :=
  if i < 0 then (n + i).toNat else min i.toNat n

/-- The position of the first character of `rest`. -/
def start (v : View) : Nat :=
  cut v.text.size v.offset

/-- The part of the text before the offset. -/
def before (v : View) : List Char :=
  v.text.toList.take v.start

/-- The part of the text from the offset on. -/
def rest (v : View) : List Char :=
  v.text.toList.drop v.start

/-- The number of characters from the offset to the end, negative past the end. -/
def size (v : View) : Int :=
  v.text.size - v.offset

/-- The length of a view, which a view past the end does not have. -/
def length (v : View) : Except Fault Nat :=
  if v.size < 0 then .error .negativeLength else .ok v.size.toNat

/-- Whether anything is left to read. -/
def nonempty (v : View) : Except Fault Bool :=
  v.length.map (· != 0)

/-- The next character, or `none` at the end. -/
def peek (v : View) : Except Fault (Option Char) :=
  if v.offset < 0 then
    if v.text.size + v.offset < 0 then .error .indexOutOfRange
    else .ok v.text[(v.text.size + v.offset).toNat]?
  else .ok v.text[v.offset.toNat]?

/-- Whether the characters of a list stand in a text from a position on. -/
def standsAt (text : Array Char) : Nat → List Char → Bool
  | _, [] => true
  | i, c :: cs => text[i]? == some c && standsAt text (i + 1) cs

/-- Whether the rest of the text starts with `cs`. Past the end nothing starts,
not even the empty list. -/
def startsWith (v : View) (cs : List Char) : Bool :=
  decide (v.offset ≤ v.text.size) && standsAt v.text v.start cs

/-- The view after the next `n` characters, at most at the end of the text. -/
def advance (v : View) (n : Int) : View :=
  { v with offset := min (v.offset + n) v.text.size }

/-- The characters after the last line feed of a list. -/
def lastLine (cs : List Char) : List Char :=
  (cs.reverse.takeWhile (· != '\n')).reverse

/-- Line and column of the offset, both from one. Lines end at a line feed. -/
def location (v : View) : Int × Int :=
  let lineStart := v.before.length - (lastLine v.before).length
  (v.before.count '\n' + 1, v.offset - lineStart + 1)

/-- The characters between two cuts. -/
def slice (v : View) (i j : Int) : List Char :=
  (v.text.toList.take (cut v.text.size j)).drop (cut v.text.size i)

/-- How many characters of the rest are shown. -/
def preview : Nat := 20

/-- A view as messages show it. -/
def shown (v : View) : Except Fault String := do
  let n ← v.length
  let cut := String.ofList (v.slice v.offset (v.offset + preview))
  let text := if preview < n then cut ++ "..." else cut
  return s!"TextInput(offset={v.offset}, rest=" ++ Text.quoted text ++ ")"

end View

end Delimited
