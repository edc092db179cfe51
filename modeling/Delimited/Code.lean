import Delimited.Text.Quoted

/-!
# Why an input is rejected

A rejection is either recoverable, when something expected is not there and an
alternative may be tried, or hard, when the input is known to be wrong.

## Main definitions

* `Reason`: why a hard failure cannot be recovered from.
* `Code`: what a rejection reports.
* `Code.isHard`: whether a rejection ends the whole parse.
* `Code.describe`: the wording of a code.
-/

namespace Delimited

/-- Why a hard failure cannot be recovered from. -/
inductive Reason where
  /-- A repetition met a success that consumed nothing. -/
  | systemFailure
  /-- The input is wrong here, and this was expected. -/
  | invalidInput (expected : String)
  deriving DecidableEq, Repr

/-- What a rejection reports. -/
inductive Code where
  /-- A hard failure. -/
  | failure (reason : Reason)
  /-- Input was needed and none was left. -/
  | noInput
  /-- This character was expected. -/
  | char (expected : String)
  /-- A line break was expected. -/
  | lineBreak
  /-- A predicate refused the output. -/
  | predicate
  deriving DecidableEq, Repr

namespace Code

/-- What the parsers of characters report when no character is left. -/
def endOfInput : Code := .char "\x00"

/-- Whether a code is a hard failure. -/
def isHard : Code → Bool
  | failure _ => true
  | _ => false

/-- The wording of a code. -/
def describe : Code → String
  | failure (.invalidInput expected) => "expected " ++ expected
  | failure .systemFailure => "internal parser failure"
  | char expected =>
    if expected = "\x00" then "unexpected end of input" else "expected " ++ Text.quoted expected
  | lineBreak => "expected a line break"
  | noInput => "expected input, found none"
  | predicate => "value rejected by predicate"

end Code

end Delimited
