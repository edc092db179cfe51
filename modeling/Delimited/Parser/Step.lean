import Delimited.Outcome

/-!
# Steps of reading

A step answers a view with an outcome, or has no answer. The combinators build
steps from steps. They look at one thing in a rejection only, namely whether it
is hard: a hard rejection is passed on, whatever the combinator, and the parts
after it are not asked.

## Main definitions

* `Step`: what is read at a view.
* `Step.map`, `Step.bind`, `Step.orElse`, `Step.filter`, `Step.require`,
  `Step.pair`: the combinators that ask their parts once.
* `Step.many`: repetition, which ends because every turn leaves less to read.
-/

namespace Delimited

/-- What is read at a view. -/
abbrev Step (α : Type) := View → Except Fault (Outcome α)

namespace Step

variable {α β : Type}

/-- Changes the output of a success. -/
def map (f : α → β) (p : Step α) : Step β := fun v =>
  (p v).map (Outcome.map f)

/-- Goes on after a success, at the remaining view, with a step that depends on
the output. -/
def bind (p : Step α) (next : α → Step β) : Step β := fun v =>
  match p v with
  | .ok (.success remaining output) => next output remaining
  | .ok (.rejected e) => .ok (.rejected e)
  | .error fault => .error fault

/-- Asks the second step, at the same view, when the first is rejected and may
be recovered from. -/
def orElse (p q : Step α) : Step α := fun v =>
  match p v with
  | .ok (.rejected e) => if e.isHard then .ok (.rejected e) else q v
  | answer => answer

/-- Keeps an output that is accepted. A refusal stands at the view that was
given and may be recovered from. -/
def filter (p : Step α) (accept : α → Bool) : Step α := fun v =>
  match p v with
  | .ok (.success remaining output) =>
    if accept output then .ok (.success remaining output) else .ok (.reject v .predicate)
  | answer => answer

/-- Keeps an output that is accepted. A refusal stands at the view that was
given and is hard. -/
def require (p : Step α) (accept : α → Bool) (expected : String) : Step α := fun v =>
  match p v with
  | .ok (.success remaining output) =>
    if accept output then .ok (.success remaining output)
    else .ok (.fail v (.invalidInput expected))
  | answer => answer

/-- Reads one thing after another. A rejection of the second stands at the view
that was given, so that the two are retried or given up together. -/
def pair (p : Step α) (q : Step β) : Step (α × β) := fun v =>
  match p v with
  | .ok (.success middle first) =>
    match q middle with
    | .ok (.success remaining second) => .ok (.success remaining (first, second))
    | .ok (.rejected e) => .ok (.reject v e.code)
    | .error fault => .error fault
  | .ok (.rejected e) => .ok (.rejected e)
  | .error fault => .error fault

/-- Repeats a step from a view on, after the outputs in `found`, the last one
first. A success has to leave less than it was given. -/
def manyFrom (p : Step α) (v : View) (found : List α) : Except Fault (Outcome (List α)) :=
  match p v with
  | .ok (.success remaining output) =>
    if remaining.size < 0 ∨ v.size < 0 then .error .negativeLength
    else if _less : remaining.size < v.size then manyFrom p remaining (output :: found)
    else .ok (.fail v .systemFailure)
  | .ok (.rejected e) =>
    if e.isHard then .ok (.rejected e) else .ok (.success v found.reverse)
  | .error fault => .error fault
termination_by v.size.toNat

/-- Repeats a step until it is rejected, and collects the outputs. A hard
rejection is passed on, and so is a success that leaves no less than it was
given, as a failure of the system. -/
def many (p : Step α) : Step (List α) := fun v =>
  manyFrom p v []

end Step

end Delimited
