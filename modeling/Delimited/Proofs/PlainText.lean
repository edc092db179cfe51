import Delimited.Proofs.RoundTrip

/-!
# Writing what was read

A text can stand for records in more than one way: fields may be quoted without need, an
empty line is the record that is written as two quotes, and line breaks may be of two
kinds. Where a text makes no use of that, having no quotes, no empty lines and line breaks
of one kind, it is what is written for the records it is read as.

## Main definitions

* `LineBreak.Uniform`: a text has line breaks of one kind only.

## Main results

* `LineBreak.Uniform.of_append`: which line breaks stand in such a text.
* `Grammar.RecordEnc.eq_line`, `Grammar.JoinedEnc.eq_intercalate`: the one text without
  quotes for a record, and for records.
* `formatDocumentWith_of_parseDocument`: a plain document is written as it was read.
-/

namespace Delimited

variable {n : Nat} {s t : List Char} {v : String} {r : Record} {d : Document}
  {b b' : LineBreak}

/-- All line breaks of a text are of one kind: for line feeds alone, the text has no
carriage returns, and otherwise one stands before every line feed. -/
def LineBreak.Uniform : LineBreak → List Char → Prop
  | .lf, t => '\r' ∉ t
  | .crlf, t => ∀ before after, t = before ++ '\n' :: after → '\r' ∈ before.getLast?

theorem LineBreak.uniform_crlf_iff :
    LineBreak.crlf.Uniform t ↔
      ∀ i < t.length, t[i]? = some '\n' → '\r' ∈ (t.take i).getLast? := by
  constructor
  · intro h i hi hlf
    refine h (t.take i) (t.drop (i + 1)) ?_
    obtain ⟨_, hchar⟩ := List.getElem?_eq_some_iff.mp hlf
    rw [← hchar, List.getElem_cons_drop, List.take_append_drop]
  · rintro h before after rfl
    simpa using h before.length (by simp) (by simp)

instance (b : LineBreak) (t : List Char) : Decidable (b.Uniform t) :=
  match b with
  | .lf => inferInstanceAs (Decidable ('\r' ∉ t))
  | .crlf => decidable_of_iff _ LineBreak.uniform_crlf_iff.symm

/-- Behind something that does not end with a carriage return, a line break is of that
kind, and so are those before it and after it. -/
theorem LineBreak.Uniform.of_append (h : b.Uniform (s ++ b'.chars ++ t)) (hs : '\r' ∉ s.getLast?) :
    b' = b ∧ b.Uniform s ∧ b.Uniform t := by
  cases b with
  | lf =>
    simp only [Uniform, List.mem_append, not_or] at h ⊢
    refine ⟨?_, h.1.1, h.2⟩
    cases b' with
    | lf => rfl
    | crlf => exact absurd (by simp [chars]) h.1.2
  | crlf =>
    refine ⟨?_, ?_, ?_⟩
    · cases b' with
      | crlf => rfl
      | lf => exact absurd (h s t (by simp [chars])) hs
    · intro before after heq
      exact h before (after ++ b'.chars ++ t) (by simp [heq])
    · intro before after heq
      have hlast := h (s ++ b'.chars ++ before) after (by simp [heq])
      -- A line feed that begins `t` would stand behind another one.
      cases before with
      | nil =>
        rw [List.append_nil, Grammar.getLast?_chars_append] at hlast
        simp at hlast
      | cons c before => rwa [List.getLast?_append_of_ne_nil _ (by simp)] at hlast

namespace Grammar

/-- Without quotes, the text of a field is what is written for it. -/
theorem FieldEnc.eq_field (h : FieldEnc s v) (hquote : '"' ∉ s) : s = Writer.field v.toList := by
  cases h with
  | quoted => simp at hquote
  | bare hv =>
    have hplain : v.toList.any isSpecial = false := by
      rw [List.any_eq_false]
      exact fun c hc => by simpa using isSpecial_eq_false_iff.mpr (hv c hc)
    rw [Writer.field, hplain, if_neg Bool.false_ne_true]

/-- Without quotes, the text of a record is what is written for it, unless it is empty. -/
theorem RecordEnc.eq_line (h : RecordEnc s r) (hquote : '"' ∉ s) (hr : r ≠ [""]) :
    s = Writer.line r := by
  have hjoined : s = [','].intercalate (r.map fun v => Writer.field v.toList) := by
    clear hr
    induction h with
    | single henc => simpa using henc.eq_field hquote
    | @cons s t v r henc others ih =>
      simp only [List.mem_append, List.mem_cons, not_or] at hquote
      rw [List.map_cons, List.intercalate_cons_of_ne_nil (by simpa using others.record_ne_nil),
        ← ih hquote.2.2, ← henc.eq_field hquote.1]
      simp
  rw [Writer.line, if_neg hr]
  exact hjoined

/-- Without quotes, empty lines and line breaks of another kind, the text of some records
is what is written for them. -/
theorem JoinedEnc.eq_intercalate (h : JoinedEnc n s d) (hquote : '"' ∉ s) (hempty : [""] ∉ d)
    (hbreaks : b.Uniform s) : s = b.chars.intercalate (d.map Writer.line) := by
  induction h with
  | last henc _ => simpa using henc.eq_line hquote (by simpa [eq_comm] using hempty)
  | @cons s t r d henc width b' others ih =>
    have hlast : '\r' ∉ s.getLast? := fun hc => henc.getLast?_notMem _ hc (by simp)
    obtain ⟨rfl, -, hothers⟩ := hbreaks.of_append hlast
    simp only [List.mem_append, List.mem_cons, not_or] at hquote hempty
    have hline := henc.eq_line hquote.1.1 (Ne.symm hempty.1)
    have hlines := ih hquote.2 hempty.2 hothers
    rw [List.map_cons, List.intercalate_cons_of_ne_nil (by simpa using others.document_ne_nil),
      ← hlines, ← hline]

/-- The same for a document, with the line break at its end if it ends with a line feed. -/
theorem LinesEnc.eq_intercalate (h : LinesEnc n t d) (hquote : '"' ∉ t) (hempty : [""] ∉ d)
    (hbreaks : b.Uniform t) :
    t = b.chars.intercalate (d.map Writer.line) ++
      if t.getLast? == some '\n' then b.chars else [] := by
  obtain ⟨s, e, rfl, hjoined, hending, hopen⟩ := h.exists_joinedEnc
  have hquote' : '"' ∉ s := fun hmem => hquote (List.mem_append_left e hmem)
  rcases hending with rfl | ⟨b', rfl⟩
  · rw [List.append_nil] at hbreaks hopen ⊢
    have hlast : (s.getLast? == some '\n') = false := by simpa using hopen rfl
    rw [← hjoined.eq_intercalate hquote' hempty hbreaks, hlast, if_neg Bool.false_ne_true,
      List.append_nil]
  · rw [← List.append_nil (s ++ b'.chars)] at hbreaks
    obtain ⟨rfl, hbreaks, -⟩ := hbreaks.of_append hjoined.getLast?_ne
    rw [← hjoined.eq_intercalate hquote' hempty hbreaks, getLast?_chars_append, beq_self_eq_true,
      if_pos rfl]

end Grammar

open Grammar

/-- A text without quotes, with line breaks of one kind, that is read as records of which
none is a single empty field, is what is written for these records with line breaks of
that kind, and with one at the end if the text ends with a line feed. -/
theorem formatDocumentWith_of_parseDocument {text : String} {remaining : View}
    (h : parseDocument (.ofString text) = .ok (.success remaining d)) (hquote : '"' ∉ text.toList)
    (hempty : [""] ∉ d) (hbreaks : b.Uniform text.toList) :
    formatDocumentWith (String.ofList b.chars) (text.toList.getLast? == some '\n') d =
      .ok text := by
  rw [View.ofString_zero] at h
  obtain ⟨-, n, hlines⟩ := docEnc_of_success h
  have hfields := Writer.ne_nil_of_width hlines.one_le_width hlines.width_eq
  rw [formatDocumentWith_eq b _ hlines.document_ne_nil hfields,
    ← hlines.eq_intercalate hquote hempty hbreaks, String.ofList_toList]

/-- Empty fields, in lines of which the last one ends like the others. -/
theorem formatDocumentWith_of_parseDocument_commas :
    (∃ v, parseDocument (.ofString ",\r\na,b c\r\n") = .ok (.success v [["", ""], ["a", "b c"]])) ∧
      '"' ∉ ",\r\na,b c\r\n".toList ∧ [""] ∉ [["", ""], ["a", "b c"]] ∧
      LineBreak.crlf.Uniform ",\r\na,b c\r\n".toList ∧
      formatDocumentWith "\r\n" true [["", ""], ["a", "b c"]] = .ok ",\r\na,b c\r\n" := by
  have h : parseDocument (.ofString ",\r\na,b c\r\n") =
      .ok (.success (.ofString ",\r\na,b c\r\n" 10) [["", ""], ["a", "b c"]]) := by
    decide +kernel
  exact ⟨⟨_, h⟩, by decide, by decide, by decide,
    formatDocumentWith_of_parseDocument (b := .crlf) h (by decide) (by decide) (by decide)⟩

end Delimited
