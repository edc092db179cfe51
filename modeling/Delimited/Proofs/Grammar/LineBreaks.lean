import Delimited.Proofs.Grammar.Document
import Delimited.Proofs.Widening
import Mathlib.Data.List.Induction

/-!
# Documents with either line break

A document with line feeds only, and the same document with a carriage return
before each of them, are read alike: rule by rule, the second reading follows
the first. What is accepted differs in the line feeds between quotes, which are
widened with the text. What is rejected is rejected with the same code, on the
same line and in the same column, since a rejection never stands between a
carriage return and its line feed.

## Main definitions

* `widenText`: a text with a carriage return before each line feed.

## Main results

* `Grammar.follows_document`: reading a widened document follows reading the document.
* `View.location_widen`: widening what is behind a view keeps its line and column.
* `parseDocument_widenText`: documents with either line break are treated alike.
-/

namespace Delimited

open Grammar Delimited.Parser

/-- The text with a carriage return before each of its line feeds. -/
def widenText (s : String) : String := String.ofList (widen s.toList)

namespace Grammar

variable {l t : List Char}

/-! ### Fields -/

theorem widen_doubled (cs : List Char) :
    widen (Writer.doubled cs) = Writer.doubled (widen cs) := by
  induction cs with
  | nil => rfl
  | cons c cs ih =>
    by_cases hquote : c = '"'
    · subst hquote
      rw [widen_cons (by decide), doubled_quote, doubled_quote, widen_cons (by decide),
        widen_cons (by decide), ih]
    · rw [doubled_cons hquote]
      by_cases hc : c = '\n'
      · subst hc
        rw [widen_lf, widen_lf, doubled_cons (by decide), doubled_cons (by decide), ih]
      · rw [widen_cons hc, widen_cons hc, doubled_cons hquote, ih]

theorem quote_mem_head?_widen : '"' ∈ (widen l).head? ↔ '"' ∈ l.head? := by
  rw [head?_widen]
  cases l with
  | nil => simp
  | cons c l => by_cases hc : c = '\n' <;> simp [hc]

theorem follows_field : Step.Follows widenText field.run field.run := by
  intro l _
  cases fieldShape l with
  | @closed cs t next =>
    have hwide := reads_field_quoted (String.ofList (widen cs)) (t := widen t)
      (by rwa [quote_mem_head?_widen])
    have hread := reads_field_quoted (String.ofList cs) next
    rw [String.toList_ofList] at hread hwide
    have halike : Step.Alike widenText field.run field.run
        (('"' :: Writer.doubled cs ++ ['"']) ++ t) := by
      refine .reads hread ?_
      rw [widenText, String.toList_ofList, widen_append, widen_cons (by decide), widen_doubled]
      exact hwide
    simpa using halike
  | unclosed cs =>
    -- Widening closes no quote.
    refine .reads (s := []) (reads_field_open cs) ?_
    rw [widen_cons (by decide), widen_doubled]
    exact reads_field_open (widen cs)
  | @bare s t start plain next =>
    -- A bare field holds no line feed, and one that follows it is special either way.
    have hself : widen s = s := widen_eq_self fun hmem => by simpa [isSpecial] using plain _ hmem
    refine .reads (reads_field_bare start plain next) ?_
    rw [widenText, String.toList_ofList, hself]
    refine reads_field_bare ?_ plain ?_
    · rwa [← quote_mem_head?_widen, widen_append, hself] at start
    · intro c hc
      rw [head?_widen] at hc
      obtain ⟨d, hd, rfl⟩ := Option.map_eq_some_iff.mp hc
      split
      · rfl
      · exact next d hd

/-! ### Records -/

theorem follows_comma : Step.Follows id comma.run comma.run := by
  intro l _
  cases l with
  | nil => exact .rejects (s := []) (char_rejects_nil ',') (char_rejects_nil ',')
  | cons c l =>
    by_cases hcomma : c = ','
    · subst hcomma
      exact .reads (s := [',']) (reads_char ',' l) (reads_char ',' (widen l))
    · -- The widened text begins with another character only at a line feed.
      refine .rejects (s := []) (char_rejects_cons hcomma) ?_
      by_cases hc : c = '\n'
      · subst hc
        exact char_rejects_cons (by decide)
      · rw [widen_cons hc]
        exact char_rejects_cons hcomma

theorem follows_fields : Step.Follows (List.map widenText) fields.run fields.run := by
  have hother : Step.Follows widenText (comma.right field).run (comma.right field).run :=
    (follows_comma.pair follows_field).map fun _ => rfl
  exact (follows_field.pair hother.many).map fun _ => rfl

theorem follows_record : Step.Follows (List.map widenText) record.run record.run := by
  intro l hl
  by_cases hne : l = []
  · subst hne
    exact .rejects (s := []) record_rejects_nil record_rejects_nil
  · generalize hwhole : l = l' at hne
    have hne' : widen l' ≠ [] := by simpa using hne
    cases follows_fields l hl with
    | reads left right =>
      subst hwhole
      rw [widen_append] at hne'
      exact .reads (reads_record left hne) (reads_record right hne')
    | rejects left right =>
      subst hwhole
      rw [widen_append] at hne'
      exact .rejects (fun before => (record_eq hne before).trans (left before))
        (fun before => (record_eq hne' before).trans (right before))

/-! ### Documents -/

theorem no_lineBreak_of_head? (h : ∀ c ∈ l.head?, c ∉ ['\r', '\n']) (b : LineBreak) :
    ¬ b.chars <+: l := by
  rintro ⟨t, rfl⟩
  cases b
  · exact h '\n' rfl (by simp)
  · exact h '\r' rfl (by simp)

theorem follows_lineBreak : Step.Follows widenText lineBreak.run lineBreak.run := by
  intro l hl
  cases l with
  | nil =>
    have hnone := lineBreak_rejects (no_lineBreak_of_head? (l := []) (by simp))
    exact .rejects (s := []) hnone hnone
  | cons c l =>
    have hreturn : c ≠ '\r' := fun hc => hl (by simp [hc])
    by_cases hc : c = '\n'
    · subst hc
      exact .reads (s := ['\n']) (reads_lineBreak .lf l) (reads_lineBreak .crlf (widen l))
    · have hnone (t : List Char) := lineBreak_rejects (no_lineBreak_of_head? (l := c :: t)
        (by simp [hc, hreturn]))
      refine .rejects (s := []) (hnone l) ?_
      rw [widen_cons hc]
      exact hnone (widen l)

theorem follows_nextRecord (n : Nat) :
    Step.Follows (List.map widenText) (nextRecord n).run (nextRecord n).run := by
  have hrequired : Step.Follows (List.map widenText)
      (record.require (fun r => r.length == n) moreFields).run
      (record.require (fun r => r.length == n) moreFields).run :=
    follows_record.require moreFields fun r => by simp
  exact (follows_lineBreak.pair hrequired).map fun _ => rfl

/-- The records after a widened one are widened too, since its width is the same. -/
theorem follows_recordsLike (first : Record) :
    Step.Follows (List.map (List.map widenText)) (recordsLike first).run
      (recordsLike (first.map widenText)).run := by
  -- Only the turns of the widened reading are stated with the widened record.
  have hwidth : (first.map widenText).length = first.length := by simp
  have hturn := follows_nextRecord first.length
  nth_rewrite 2 [← hwidth] at hturn
  exact hturn.many.map fun _ => rfl

theorem isEnding_widen_iff (hl : '\r' ∉ l) : IsEnding (widen l) ↔ IsEnding l := by
  have hiff (t : List Char) : IsEnding t ↔ t = [] ∨ t = ['\n'] ∨ t = ['\r', '\n'] := by
    refine or_congr_right ⟨?_, ?_⟩
    · rintro ⟨b, rfl⟩
      cases b <;> simp [LineBreak.chars]
    · rintro (rfl | rfl)
      · exact ⟨.lf, rfl⟩
      · exact ⟨.crlf, rfl⟩
  rw [hiff, hiff]
  cases l with
  | nil => simp
  | cons c l =>
    have hreturn : c ≠ '\r' := fun hc => hl (by simp [hc])
    by_cases hc : c = '\n'
    · simp [hc]
    · simp [widen_cons hc, hc, hreturn]

theorem follows_finish (d : Document) :
    Step.Follows (List.map (List.map widenText)) (finish d)
      (finish (d.map (List.map widenText))) := by
  intro l hl
  by_cases hending : IsEnding l
  · rw [← List.append_nil l]
    exact .reads (finish_reads d hending) (finish_reads _ ((isEnding_widen_iff hl).mpr hending))
  · have hending' : ¬ IsEnding (widen l) := by rwa [isEnding_widen_iff hl]
    exact .rejects (s := []) (finish_rejects d hending) (finish_rejects _ hending')

theorem follows_document :
    Step.Follows (List.map (List.map widenText)) document.run document.run :=
  (follows_record.bind follows_recordsLike).bind follows_finish

end Grammar

/-! ### Where a document is rejected -/

theorem View.lastLine_widen (s : List Char) : lastLine (widen s) = lastLine s := by
  -- The induction is from the right, where a last line ends.
  induction s using List.reverseRecOn with
  | nil => rfl
  | append_singleton s c ih =>
    rw [widen_append]
    by_cases hc : c = '\n'
    · subst hc
      have hsplit : widen s ++ widen ['\n'] = widen s ++ ['\r'] ++ ['\n'] := by simp
      rw [hsplit, lastLine_lf, lastLine_lf]
    · rw [widen_cons hc, widen_nil, lastLine_append _ hc, lastLine_append _ hc, ih]

/-- Widening what is behind a view keeps its line and its column. -/
theorem View.location_widen (s t t' : List Char) :
    (between (widen s) t').location = (between s t).location := by
  rw [location_between, location_between, count_lf_widen, lastLine_widen]

/-- Documents with either line break are treated alike. A text without carriage
returns and the text with one before each line feed are both accepted, the second
with the widened fields of the first, or both rejected, with the same code, at
the same line and column, and in the same words. -/
theorem parseDocument_widenText (t : String) (ht : '\r' ∉ t.toList) :
    (∃ v v' d, parseDocument (.ofString t) = .ok (.success v d) ∧
      parseDocument (.ofString (widenText t)) =
        .ok (.success v' (d.map (List.map widenText)))) ∨
    ∃ e e', parseDocument (.ofString t) = .ok (.rejected e) ∧
      parseDocument (.ofString (widenText t)) = .ok (.rejected e') ∧ e'.code = e.code ∧
      e'.input.location = e.input.location ∧ e'.describe = e.describe := by
  rw [View.ofString_zero, View.ofString_zero, widenText, String.toList_ofList]
  generalize t.toList = l at ht
  cases follows_document l ht with
  | reads left right =>
    rw [widen_append]
    exact .inl ⟨_, _, _, left [], right []⟩
  | @rejects s t c left right =>
    have hlocation := View.location_widen s t (widen t)
    rw [widen_append]
    refine .inr ⟨_, _, left [], right [], rfl, hlocation, ?_⟩
    simp only [Rejection.describe, List.nil_append, hlocation]

/-- The case of a line feed between quotes and, behind it, a record of another width. -/
theorem parseDocument_widenText_width :
    (∃ v v' d, parseDocument (.ofString "a,\"b\nc\"\nd\n") = .ok (.success v d) ∧
      parseDocument (.ofString (widenText "a,\"b\nc\"\nd\n")) =
        .ok (.success v' (d.map (List.map widenText)))) ∨
    ∃ e e', parseDocument (.ofString "a,\"b\nc\"\nd\n") = .ok (.rejected e) ∧
      parseDocument (.ofString (widenText "a,\"b\nc\"\nd\n")) = .ok (.rejected e') ∧
      e'.code = e.code ∧ e'.input.location = e.input.location ∧ e'.describe = e.describe :=
  parseDocument_widenText _ (by decide)

end Delimited
