import Delimited.Code
import Delimited.View

/-!
# What a parser answers

## Main definitions

* `Rejection`: a view and a code, where and why parsing stopped.
* `Outcome`: a success with the remaining view and an output, or a rejection.
-/

namespace Delimited

/-- Where and why parsing stopped. -/
structure Rejection where
  /-- The view at which parsing stopped. -/
  input : View
  /-- What is reported. -/
  code : Code
  deriving DecidableEq, Repr

namespace Rejection

/-- Whether the rejection ends the whole parse. -/
def isHard (e : Rejection) : Bool := e.code.isHard

/-- The wording of a rejection, with line and column. -/
def describe (e : Rejection) : String :=
  let (line, column) := e.input.location
  s!"line {line}, column {column}: " ++ e.code.describe

end Rejection

/-- The answer of a parser. -/
inductive Outcome (α : Type) where
  /-- The parser accepted a part of the input. -/
  | success (remaining : View) (output : α)
  /-- The parser rejected the input. -/
  | rejected (rejection : Rejection)
  deriving DecidableEq, Repr

namespace Outcome

variable {α β : Type}

/-- The rejection at a view. -/
def reject (input : View) (code : Code) : Outcome α := .rejected ⟨input, code⟩

/-- The hard rejection at a view. -/
def fail (input : View) (reason : Reason) : Outcome α := reject input (.failure reason)

/-- The outcome with another output. -/
def map (f : α → β) : Outcome α → Outcome β
  | success remaining output => success remaining (f output)
  | rejected e => rejected e

end Outcome

end Delimited
