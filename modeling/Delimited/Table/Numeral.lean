import Delimited.Table.Number

/-!
# Numerals

The numbers as cells hold them: digits with a sign, a point and an exponent, and
the names of the infinities. They are read with correct rounding.

## Main definitions

* `Numeral`: the numbers that cells can hold.
* `Numeral.ofChars?`: the number that a cell holds.
* `Numeral.read`: cells read as numerals.
-/

namespace Delimited

/-- A number as it stands in a cell. -/
inductive Numeral where
  /-- `± digits * 10 ^ exponent`, written as an integer or not. -/
  | decimal (negative integral : Bool) (digits : Nat) (exponent : Int)
  /-- An infinity. -/
  | infinite (negative : Bool)
  deriving DecidableEq, Repr

/-- The number of a list of digits. -/
def digitsValue (cs : List Char) : Nat :=
  cs.foldl (fun n c => 10 * n + (c.toNat - '0'.toNat)) 0

namespace Numeral

/-- The exponent after the digits: nothing, or a mark, a sign and digits. -/
def exponent? : List Char → Option Int
  | [] => some 0
  | c :: cs =>
    if c = 'e' ∨ c = 'E' then
      let (negative, digits) := splitSign cs
      if digits ≠ [] ∧ digits.all Char.isDigit then
        some (if negative then -(digitsValue digits : Int) else digitsValue digits)
      else none
    else none

/-- The number without its sign: digits with a point before, among or after
them, and an exponent. -/
def unsigned? (negative : Bool) (cs : List Char) : Option Numeral :=
  let whole := cs.takeWhile Char.isDigit
  match cs.dropWhile Char.isDigit with
  | '.' :: rest =>
    let fraction := rest.takeWhile Char.isDigit
    if whole = [] ∧ fraction = [] then none
    else (exponent? (rest.dropWhile Char.isDigit)).map fun e =>
      decimal negative false (digitsValue (whole ++ fraction)) (e - fraction.length)
  | rest =>
    if whole = [] then none
    else (exponent? rest).map fun e => decimal negative rest.isEmpty (digitsValue whole) e

/-- The number that some characters are. -/
def ofChars? (cs : List Char) : Option Numeral :=
  let (negative, rest) := splitSign cs
  let word := rest.map Char.toLower
  if word = "inf".toList ∨ word = "infinity".toList then some (infinite negative)
  else unsigned? negative rest

/-- The integer, if the number is written as one. -/
def toInt? : Numeral → Option Int
  | decimal negative true digits _ => some (if negative then -(digits : Int) else digits)
  | _ => none

/-- The double nearest to the number. -/
def toDouble : Numeral → Double
  | decimal negative _ digits e => .ofDecimal negative digits e
  | infinite negative => .infinite negative

theorem toDouble_ne_nan (x : Numeral) : x.toDouble ≠ .nan := by
  cases x with
  | infinite negative => nofun
  | decimal negative integral digits e => exact Double.ofDecimal_ne_nan negative digits e

/-- Cells that are read as numerals. -/
def read : NumberReader := fun cs =>
  (ofChars? cs).map fun x => ⟨x.toInt?, x.toDouble, x.toDouble_ne_nan⟩

end Numeral

end Delimited
