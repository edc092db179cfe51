/-!
# Blank characters

Blanks are what is ignored at both ends of a cell or a name: tabs, line ends,
the four information separators, spaces of every width, and the line and
paragraph separators.

## Main definitions

* `isBlank`: whether a character is blank.
* `strip`: a text without the blanks at its ends.
-/

namespace Delimited.Text

/-- The blank characters. -/
def isBlank (c : Char) : Bool :=
  let n := c.toNat
  decide ((0x09 ≤ n ∧ n ≤ 0x0D) ∨ (0x1C ≤ n ∧ n ≤ 0x20) ∨ n = 0x85 ∨ n = 0xA0 ∨ n = 0x1680 ∨
    (0x2000 ≤ n ∧ n ≤ 0x200A) ∨ n = 0x2028 ∨ n = 0x2029 ∨ n = 0x202F ∨ n = 0x205F ∨ n = 0x3000)

/-- The characters without the blanks at both ends. -/
def stripChars (cs : List Char) : List Char :=
  ((cs.dropWhile isBlank).reverse.dropWhile isBlank).reverse

/-- A text without the blanks at both ends. -/
def strip (s : String) : String :=
  String.ofList (stripChars s.toList)

end Delimited.Text
