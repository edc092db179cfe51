import Delimited.Parser.Step

/-!
# Parsers

A parser is built from leaves with the combinators, in any nesting. Running it
replaces each combinator by what it does to steps.

## Main definitions

* `Parser`: leaves and combinators.
* `Parser.run`: the step a parser stands for.
* `Parser.left`, `Parser.right`: two parsers in sequence, of which one output is kept.
* `Parser.shown?`: how a parser that is not a chain shows itself.
-/

namespace Delimited

/-- Parsers with outputs in a type. -/
inductive Parser : Type → Type 1 where
  /-- A step with a name. -/
  | leaf {α : Type} (name : String) (step : Step α) : Parser α
  /-- Changes the output. -/
  | map {α β : Type} (f : α → β) (p : Parser α) : Parser β
  /-- Goes on with a parser that depends on the output. -/
  | bind {α β : Type} (p : Parser α) (next : α → Parser β) : Parser β
  /-- Tries a second parser after a rejection that is not hard. -/
  | orElse {α : Type} (p q : Parser α) : Parser α
  /-- Refuses some outputs. -/
  | filter {α : Type} (p : Parser α) (accept : α → Bool) : Parser α
  /-- Refuses some outputs for good. -/
  | require {α : Type} (p : Parser α) (accept : α → Bool) (expected : String) : Parser α
  /-- Reads one thing after another. -/
  | pair {α β : Type} (p : Parser α) (q : Parser β) : Parser (α × β)
  /-- Repeats a parser. -/
  | many {α : Type} (p : Parser α) : Parser (List α)

namespace Parser

variable {α β : Type}

/-- The step a parser stands for. -/
def run {α : Type} : Parser α → Step α
  | leaf _ step => step
  | map f p => p.run.map f
  | bind p next => p.run.bind fun output => (next output).run
  | orElse p q => p.run.orElse q.run
  | filter p accept => p.run.filter accept
  | require p accept expected => p.run.require accept expected
  | pair p q => p.run.pair q.run
  | many p => p.run.many

/-- Reads two things and keeps the first. -/
def left (p : Parser α) (q : Parser β) : Parser α := (pair p q).map Prod.fst

/-- Reads two things and keeps the second. -/
def right (p : Parser α) (q : Parser β) : Parser β := (pair p q).map Prod.snd

/-- What a refusal expects when nothing else is said. -/
def unknown : String := "unknown"

/-- The parser that has no answer for any view. -/
def faulty (fault : Fault) : Parser α := leaf "faulty" fun _ => .error fault

instance : Inhabited (Parser α) := ⟨faulty default⟩

/-- How leaves, pairs and repetitions show themselves. -/
def shown? : Parser α → Option String
  | leaf name _ => some ("FnParser(" ++ Text.quoted name ++ ")")
  | pair _ _ => some ("FnParser(" ++ Text.quoted "parse_pair" ++ ")")
  | many _ => some ("FnParser(" ++ Text.quoted "parse_many" ++ ")")
  | _ => none

end Parser

end Delimited
