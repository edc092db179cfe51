import Delimited.Proofs.Grammar.Document
import Delimited.Proofs.Suffix

/-!
# Parsers composed of others

Parsers are composed with the combinators, in any nesting, from some parsers to
begin with. A property of steps that every combinator keeps holds of all composed
parsers once it holds of the first ones. Two such properties are that outcomes
stand at suffixes of the given view, and that what is behind a view does not
matter. The parsers of characters and the rules of the grammar have both.

## Main definitions

* `Step.Compositional P`: every combinator keeps the property `P`.
* `Parser.Composed base`: the parsers composed of those in `base`.
* `Grammar.Rule`: the parsers of characters and the rules of the grammar.

## Main results

* `Parser.Composed.run_of_compositional`: composed parsers have the compositional
  properties of what they are composed of.
* `Grammar.Rule.run_local`: the rules are local.
* `Grammar.wellBehaved_of_rule_or_composed`: the rules are well-behaved, and so are
  all parsers composed of well-behaved ones.
* `Grammar.run_ofString_append_eq_shift`: what parsers composed of the rules answer
  behind a text is what they answer without it, shifted.
-/

namespace Delimited

/-- Every combinator keeps the property `P`. -/
structure Step.Compositional (P : ⦃α : Type⦄ → Step α → Prop) : Prop where
  map {α β : Type} {p : Step α} (f : α → β) : P p → P (p.map f)
  bind {α β : Type} {p : Step α} {next : α → Step β} : P p → (∀ x, P (next x)) → P (p.bind next)
  orElse {α : Type} {p q : Step α} : P p → P q → P (p.orElse q)
  filter {α : Type} {p : Step α} (accept : α → Bool) : P p → P (p.filter accept)
  require {α : Type} {p : Step α} (accept : α → Bool) (expected : String) :
    P p → P (p.require accept expected)
  pair {α β : Type} {p : Step α} {q : Step β} : P p → P q → P (p.pair q)
  many {α : Type} {p : Step α} : P p → P p.many

theorem Step.compositional_local : Compositional @Local :=
  ⟨.map, .bind, .orElse, .filter, .require, .pair, .many⟩

theorem Step.compositional_wellBehaved : Compositional @WellBehaved :=
  ⟨.map, .bind, .orElse, .filter, .require, .pair, .many⟩

namespace Parser

/-- The parsers that the combinators build, in any nesting, from those in `base`. -/
inductive Composed (base : ⦃α : Type⦄ → Parser α → Prop) : ⦃α : Type⦄ → Parser α → Prop where
  | basic {α : Type} {p : Parser α} (h : base p) : Composed base p
  | map {α β : Type} {p : Parser α} (f : α → β) (h : Composed base p) : Composed base (p.map f)
  | bind {α β : Type} {p : Parser α} {next : α → Parser β} (h : Composed base p)
      (hnext : ∀ x, Composed base (next x)) : Composed base (p.bind next)
  | orElse {α : Type} {p q : Parser α} (h : Composed base p) (h' : Composed base q) :
      Composed base (p.orElse q)
  | filter {α : Type} {p : Parser α} (accept : α → Bool) (h : Composed base p) :
      Composed base (p.filter accept)
  | require {α : Type} {p : Parser α} (accept : α → Bool) (expected : String)
      (h : Composed base p) : Composed base (p.require accept expected)
  | pair {α β : Type} {p : Parser α} {q : Parser β} (h : Composed base p)
      (h' : Composed base q) : Composed base (p.pair q)
  | many {α : Type} {p : Parser α} (h : Composed base p) : Composed base p.many

namespace Composed

variable {base : ⦃α : Type⦄ → Parser α → Prop} {α β : Type} {p : Parser α} {q : Parser β}

theorem left (h : Composed base p) (h' : Composed base q) : Composed base (p.left q) :=
  (h.pair h').map _

theorem right (h : Composed base p) (h' : Composed base q) : Composed base (p.right q) :=
  (h.pair h').map _

/-- Composed parsers have the compositional properties of what they are composed of. -/
theorem run_of_compositional {P : ⦃α : Type⦄ → Step α → Prop} (hP : Step.Compositional P)
    (hbase : ∀ ⦃α : Type⦄ (p : Parser α), base p → P p.run) (h : Composed base p) : P p.run := by
  induction h with
  | basic h => exact hbase _ h
  | map f _ ih => exact hP.map f ih
  | bind _ _ ih ihnext => exact hP.bind ih ihnext
  | orElse _ _ ih ih' => exact hP.orElse ih ih'
  | filter accept _ ih => exact hP.filter accept ih
  | require accept expected _ ih => exact hP.require accept expected ih
  | pair _ _ ih ih' => exact hP.pair ih ih'
  | many _ ih => exact hP.many ih

end Composed

end Parser

namespace Grammar

open Delimited.Parser

/-- The parsers of characters and the rules of the grammar. -/
inductive Rule : ⦃α : Type⦄ → Parser α → Prop where
  | anyChar : Rule anyChar
  | lineBreak : Rule lineBreak
  | char (c : Char) : Rule (char c)
  | escaped : Rule escaped
  | nonEscaped : Rule nonEscaped
  | field : Rule field
  | record : Rule record
  | recordsLike (first : Record) : Rule (recordsLike first)
  | document : Rule document

/-! ### The rules are local -/

theorem local_anyChar : anyChar.run.Local := by
  intro l
  cases l with
  | nil => exact .rejects (s := []) anyChar_rejects_nil
  | cons c l => exact .reads (s := [c]) (reads_anyChar c l)

theorem local_char (c : Char) : (char c).run.Local := by
  intro l
  cases l with
  | nil => exact .rejects (s := []) (char_rejects_nil c)
  | cons d l =>
    by_cases hd : d = c
    · subst hd
      exact .reads (s := [d]) (reads_char d l)
    · exact .rejects (s := []) (char_rejects_cons hd)

theorem local_lineBreak : lineBreak.run.Local := by
  intro l
  by_cases hbreak : ∀ b : LineBreak, ¬ b.chars <+: l
  · exact .rejects (s := []) (lineBreak_rejects hbreak)
  · simp only [not_forall, not_not] at hbreak
    obtain ⟨b, t, rfl⟩ := hbreak
    exact .reads (reads_lineBreak b t)

theorem local_escaped : escaped.run.Local := by
  have hdquote : dquote.run.Local := local_char '"'
  have hquotedChar : quotedChar.run.Local :=
    (local_anyChar.filter _).orElse ((hdquote.pair hdquote).map _)
  exact ((hdquote.pair ((hquotedChar.many.pair hdquote).map _)).map _).map _

theorem local_nonEscaped : nonEscaped.run.Local := (local_anyChar.filter _).many.map _

theorem local_field : field.run.Local := local_escaped.orElse local_nonEscaped

theorem local_record : record.run.Local := by
  have hother : (comma.right field).run.Local := ((local_char ',').pair local_field).map _
  have hfields : fields.run.Local := (local_field.pair hother.many).map _
  intro l
  by_cases hl : l = []
  · subst hl
    exact .rejects (s := []) record_rejects_nil
  · exact (hfields l).of_eq (record_eq hl)

theorem local_recordsLike (first : Record) : (recordsLike first).run.Local :=
  ((local_lineBreak.pair (local_record.require _ _)).map _).many.map _

theorem local_finish (d : Document) : (finish d).Local := by
  intro l
  by_cases hl : IsEnding l
  · rw [← List.append_nil l]
    exact .reads (finish_reads d hl)
  · exact .rejects (s := []) (finish_rejects d hl)

theorem local_document : document.run.Local :=
  (local_record.bind local_recordsLike).bind local_finish

theorem Rule.run_local ⦃α : Type⦄ (p : Parser α) (h : Rule p) : p.run.Local := by
  cases h with
  | anyChar => exact local_anyChar
  | lineBreak => exact local_lineBreak
  | char c => exact local_char c
  | escaped => exact local_escaped
  | nonEscaped => exact local_nonEscaped
  | field => exact local_field
  | record => exact local_record
  | recordsLike first => exact local_recordsLike first
  | document => exact local_document

/-! ### Composed parsers -/

/-- Outcomes stand at suffixes of the given view: the rules see to it, and so do all
parsers composed, to any depth, of parsers that do. -/
theorem wellBehaved_of_rule_or_composed {α : Type} (p : Parser α)
    (h : Rule p ∨ Composed (fun _ q => q.run.WellBehaved) p) : p.run.WellBehaved := by
  rcases h with hrule | hcomposed
  · exact (Rule.run_local p hrule).wellBehaved
  · exact hcomposed.run_of_compositional Step.compositional_wellBehaved fun _ _ h => h

/-- The case of a rule, and of a repetition of a parser built from what was read. -/
theorem wellBehaved_of_rule_or_composed_repeated :
    document.run.WellBehaved ∧
      ((anyChar.bind fun c => (char c).left lineBreak).many.orElse
        (anyChar.require (· == '-') "a dash").many).run.WellBehaved := by
  have hbase {α : Type} {p : Parser α} (h : Rule p) :
      Composed (fun _ q => q.run.WellBehaved) p :=
    .basic (Rule.run_local p h).wellBehaved
  refine ⟨wellBehaved_of_rule_or_composed document (.inl .document),
    wellBehaved_of_rule_or_composed _ (.inr ?_)⟩
  apply Composed.orElse
  · exact ((hbase .anyChar).bind fun c => (hbase (.char c)).left (hbase .lineBreak)).many
  · exact ((hbase .anyChar).require _ _).many

/-- What is behind a view does not matter. Behind `a`, a parser composed of rules
answers with the outcome it has without `a`, shifted, and so does the reading of
documents. -/
theorem run_ofString_append_eq_shift {α : Type} (p : Parser α) (h : Composed Rule p)
    (a b : String) :
    p.run (.ofString (a ++ b) a.length) = (p.run (.ofString b)).map (.shift a) ∧
      parseDocument (.ofString (a ++ b) a.length) =
        (parseDocument (.ofString b)).map (.shift a) := by
  have hwithin : (View.ofString b).Within := by
    rw [View.ofString_zero]
    exact View.within_between _ _
  have hlocal := h.run_of_compositional Step.compositional_local Rule.run_local
  rw [View.ofString_append]
  exact ⟨hlocal.shift_eq a hwithin, local_document.shift_eq a hwithin⟩

/-- The case of fields with commas behind them, in the middle of a text. -/
theorem run_ofString_append_eq_shift_fields :
    (field.left (char ',')).many.run (.ofString ("a\n" ++ "b,c,d") 2) =
        ((field.left (char ',')).many.run (.ofString "b,c,d")).map (.shift "a\n") ∧
      parseDocument (.ofString ("a\n" ++ "b,c,d") 2) =
        (parseDocument (.ofString "b,c,d")).map (.shift "a\n") :=
  run_ofString_append_eq_shift _ (((Composed.basic .field).left (.basic (.char ','))).many)
    "a\n" "b,c,d"

end Grammar

end Delimited
