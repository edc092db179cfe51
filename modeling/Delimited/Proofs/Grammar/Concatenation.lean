import Delimited.Proofs.Grammar.Document

/-!
# Documents one after another

Without what may stand at its end, the text of a document is the texts of its records
with line breaks between them. A line break behind it joins it to whatever follows:
to a document of the same width, with which it makes one document, or to a record of
another width, which is rejected at that line break. Nothing in the text before the
line break is read otherwise for what comes after it.

## Main definitions

* `Document.HasWidth`: the records of a document have a number of fields.
* `Grammar.JoinedEnc`: encodings of records with line breaks between them.
* `finalBreak`: the line break at the end of a text.

## Main results

* `Grammar.LinesEnc.exists_joinedEnc`: what stands before the end of a document.
* `Grammar.JoinedEnc.append`: records and a document of the same width.
* `Grammar.JoinedEnc.document_rejects`: records and one record of another width.
* `parseDocument_append`: two documents, the first of which ends with a line feed.
-/

namespace Delimited

/-- There are records, and each has `n` fields. -/
def Document.HasWidth (d : Document) (n : Nat) : Prop := d ≠ [] ∧ ∀ r ∈ d, r.length = n

namespace Grammar

open Delimited.Parser

variable {n : Nat} {s s' t e l : List Char} {v : String} {r : Record} {d d' : Document}
  {b : LineBreak} {c : Code}

/-! ### Last characters -/

theorem getLast?_chars_append (b : LineBreak) (s : List Char) :
    (s ++ b.chars).getLast? = some '\n' := by
  cases b <;> simp [LineBreak.chars]

theorem FieldEnc.getLast?_notMem (h : FieldEnc s v) : ∀ c ∈ s.getLast?, c ∉ ['\r', '\n'] := by
  intro c hc
  cases h with
  | bare hv =>
    have hplain := hv c (List.mem_of_getLast? hc)
    simp only [List.mem_cons, not_or] at hplain
    simpa using hplain.2.2
  | quoted =>
    rw [List.getLast?_concat, Option.mem_some_iff] at hc
    simp [← hc]

/-- No encoding of a record ends with a character of a line break. -/
theorem RecordEnc.getLast?_notMem (h : RecordEnc s r) : ∀ c ∈ s.getLast?, c ∉ ['\r', '\n'] := by
  induction h with
  | single henc => exact henc.getLast?_notMem
  | @cons s t v r henc others ih =>
    intro c hc
    cases t with
    | nil =>
      -- An empty last field leaves the comma before it.
      have hcomma : ',' = c := by simpa using hc
      simp [← hcomma]
    | cons d t => exact ih c (by simpa [List.getLast?_append] using hc)

/-! ### Records with line breaks between them -/

/-- Records of width `n` with line breaks between them, and none behind the last. -/
inductive JoinedEnc (n : Nat) : List Char → Document → Prop where
  /-- The last record. -/
  | last {s : List Char} {r : Record} (h : RecordEnc s r) (width : r.length = n) :
      JoinedEnc n s [r]
  /-- A record, a line break, and the records after it. -/
  | cons {s t : List Char} {r : Record} {d : Document} (h : RecordEnc s r)
      (width : r.length = n) (b : LineBreak) (others : JoinedEnc n t d) :
      JoinedEnc n (s ++ b.chars ++ t) (r :: d)

theorem JoinedEnc.document_ne_nil (h : JoinedEnc n s d) : d ≠ [] := by
  cases h <;> simp

/-- The text of a document is its records, joined, and then a line break or nothing. With
nothing behind them the records do not end with a line feed. -/
theorem LinesEnc.exists_joinedEnc (h : LinesEnc n t d) :
    ∃ s e, t = s ++ e ∧ JoinedEnc n s d ∧ IsEnding e ∧ (e = [] → '\n' ∉ t.getLast?) := by
  induction h with
  | @last s e r henc width ending nonempty =>
    refine ⟨s, e, rfl, .last henc width, ending, ?_⟩
    rintro rfl hlf
    rw [List.append_nil] at hlf
    exact henc.getLast?_notMem _ hlf (by simp)
  | @cons s t r d henc width b others ih =>
    obtain ⟨s', e, rfl, hjoined, hending, hlast⟩ := ih
    refine ⟨s ++ b.chars ++ s', e, by simp, .cons henc width b hjoined, hending, ?_⟩
    intro he
    rw [List.getLast?_append_of_ne_nil _ others.text_ne_nil]
    exact hlast he

/-- A line feed at the end of a document is that of a line break behind its records. -/
theorem LinesEnc.exists_joinedEnc_of_getLast? (h : LinesEnc n t d) (hlf : '\n' ∈ t.getLast?) :
    ∃ s b, t = s ++ LineBreak.chars b ∧ JoinedEnc n s d := by
  obtain ⟨s, e, rfl, hjoined, rfl | ⟨b, rfl⟩, hlast⟩ := h.exists_joinedEnc
  · exact absurd hlf (hlast rfl)
  · exact ⟨s, b, rfl, hjoined⟩

/-- Joined records do not end with a carriage return. -/
theorem JoinedEnc.getLast?_ne (h : JoinedEnc n s d) : '\r' ∉ s.getLast? := by
  induction h with
  | last henc _ => exact fun hc => henc.getLast?_notMem _ hc (by simp)
  | @cons s t r d _ _ b _ ih =>
    cases t with
    | nil =>
      rw [List.append_nil, getLast?_chars_append]
      simp
    | cons c t =>
      rw [List.getLast?_append_of_ne_nil _ (List.cons_ne_nil c t)]
      exact ih

/-- A line break joins records to a document of the same width. -/
theorem JoinedEnc.append (h : JoinedEnc n s d) (b : LineBreak) (h' : LinesEnc n t d') :
    LinesEnc n (s ++ b.chars ++ t) (d ++ d') := by
  induction h with
  | last henc width => exact .cons henc width b h'
  | @cons s s' r d henc width b' _ ih =>
    have hlines := LinesEnc.cons henc width b' ih
    simpa using hlines

/-- Joined records are read up to a line break behind them at which a turn is rejected
for good. -/
theorem JoinedEnc.records_rejects (h : JoinedEnc n s d) (hl : l ≠ [])
    (hhead : ∀ c ∈ l.head?, c ∈ ['\r', '\n']) (hc : c.isHard = true)
    (hrejects : (nextRecord n).run.Rejects [] c l) :
    ∃ s₀ r₀ s₁, s = s₀ ++ s₁ ∧ r₀.length = n ∧ record.run.Reads s₀ r₀ (s₁ ++ l) ∧
      (nextRecord n).many.run.Rejects s₁ c l := by
  induction h with
  | @last s r henc width =>
    refine ⟨s, r, [], by simp, width, henc.reads ?_ hhead, hrejects.many hc⟩
    simp [hl]
  | @cons s t r d henc width b _ ih =>
    -- The first record of the others, with the line break before it, is one more turn.
    obtain ⟨s₀, r₀, s₁, rfl, hwidth, hread, hmany⟩ := ih
    have hturn := reads_nextRecord b hread hwidth
    have hsome : b.chars ++ s₀ ≠ [] := by simp [chars_ne_nil]
    refine ⟨s, r, b.chars ++ s₀ ++ s₁, by simp, width, ?_, hturn.many_rejects hsome hmany⟩
    refine henc.reads (by simp [hl]) ?_
    simpa using head?_chars_append b (s₀ ++ (s₁ ++ l))

/-- Behind joined records, a line break and a record of another width are rejected where
the line break begins. -/
theorem JoinedEnc.document_rejects (h : JoinedEnc n s d) (b : LineBreak)
    (hread : record.run.Reads s' r t) (hwidth : r.length ≠ n) :
    document.run.Rejects s (.failure (.invalidInput moreFields)) (b.chars ++ (s' ++ t)) := by
  obtain ⟨s₀, r₀, s₁, rfl, rfl, hfirst, hmany⟩ := h.records_rejects (by simp [chars_ne_nil])
    (head?_chars_append b _) rfl (nextRecord_rejects_width b hread hwidth)
  exact (Grammar.records_rejects hfirst hmany).bind

/-! ### Whole texts -/

/-- An encoded document is accepted. -/
theorem DocEnc.parseDocument_eq {text : String} (h : DocEnc text.toList d) :
    parseDocument (.ofString text) = .ok (.success (.ofString text text.length) d) := by
  rw [View.ofString_zero, View.ofString_length]
  simpa [parseDocument] using h.reads []

/-- A document that is rejected behind `s` is rejected at the place where `s` ends. -/
theorem parseDocument_of_rejects {text : String} (h : document.run.Rejects s c l)
    (htext : text.toList = s ++ l) :
    parseDocument (.ofString text) = .ok (.reject (.ofString text s.length) c) := by
  have hview : View.ofString text s.length = .between s l := by
    simp [View.ofString, View.between, htext]
  rw [View.ofString_zero, hview, htext]
  exact h []

end Grammar

open Grammar

/-- The line break at the end of a text that ends with a line feed. A carriage return
before the line feed belongs to it. -/
def finalBreak (t : String) : LineBreak :=
  if ['\r', '\n'].isSuffixOf t.toList then .crlf else .lf

/-- Behind a text that does not end with a carriage return, a line break is the one at
the end. -/
theorem finalBreak_eq {t : String} {s : List Char} {b : LineBreak} (ht : t.toList = s ++ b.chars)
    (hs : '\r' ∉ s.getLast?) : finalBreak t = b := by
  have hsuffix : ['\r', '\n'] <:+ t.toList ↔ b = .crlf := by
    rw [ht]
    cases b with
    | crlf => simp [LineBreak.chars]
    | lf =>
      simp only [LineBreak.chars, reduceCtorEq, iff_false]
      rintro ⟨s', heq⟩
      -- The character before the line feed would be a carriage return.
      obtain rfl : s' ++ ['\r'] = s := List.append_cancel_right (by simpa using heq)
      simp at hs
  simp only [finalBreak, List.isSuffixOf_iff_suffix, hsuffix]
  cases b <;> rfl

/-- A document that ends with a line feed and a document after it, each of which is
accepted by itself, are accepted together as the records of both if they have one width.
If they have not, they are rejected for good where the last line break of the first
begins. -/
theorem parseDocument_append {t₁ t₂ : String} {d₁ d₂ : Document} {v₁ v₂ : View}
    (h₁ : parseDocument (.ofString t₁) = .ok (.success v₁ d₁))
    (h₂ : parseDocument (.ofString t₂) = .ok (.success v₂ d₂)) (hlf : '\n' ∈ t₁.toList.getLast?) :
    ∃ n₁ n₂, d₁.HasWidth n₁ ∧ d₂.HasWidth n₂ ∧
      (n₁ = n₂ → parseDocument (.ofString (t₁ ++ t₂)) =
        .ok (.success (.ofString (t₁ ++ t₂) (t₁ ++ t₂).length) (d₁ ++ d₂))) ∧
      (n₁ ≠ n₂ → parseDocument (.ofString (t₁ ++ t₂)) =
        .ok (.fail (.ofString (t₁ ++ t₂) (t₁.length - (finalBreak t₁).chars.length))
          (.invalidInput "more fields in this record"))) := by
  rw [View.ofString_zero] at h₁ h₂
  obtain ⟨-, n₁, hlines₁⟩ := docEnc_of_success h₁
  obtain ⟨-, n₂, hlines₂⟩ := docEnc_of_success h₂
  obtain ⟨s, b, ht₁, hjoined⟩ := hlines₁.exists_joinedEnc_of_getLast? hlf
  refine ⟨n₁, n₂, ⟨hlines₁.document_ne_nil, hlines₁.width_eq⟩,
    ⟨hlines₂.document_ne_nil, hlines₂.width_eq⟩, ?_, ?_⟩
  · rintro rfl
    refine DocEnc.parseDocument_eq ⟨n₁, ?_⟩
    rw [String.toList_append, ht₁]
    exact hjoined.append b hlines₂
  · intro hne
    obtain ⟨s₀, r₀, s₁, rs, e, ht₂, -, rfl, -, hread, -⟩ := hlines₂.reads_records
    have hrejects := hjoined.document_rejects b hread hne.symm
    have hlength : (t₁.length : Int) - (finalBreak t₁).chars.length = s.length := by
      rw [finalBreak_eq ht₁ hjoined.getLast?_ne, ← String.length_toList, ht₁, List.length_append]
      omega
    rw [hlength]
    refine parseDocument_of_rejects hrejects ?_
    rw [String.toList_append, ht₁, ht₂, List.append_assoc]

/-- A document with a line feed between quotes and a line break of two characters at its
end, before one that begins with an empty line and before one that is wider. -/
theorem parseDocument_append_quoted :
    (∃ v₁ v₂ v₃, parseDocument (.ofString "x\r\n\"\n\"\r\n") = .ok (.success v₁ [["x"], ["\n"]]) ∧
      parseDocument (.ofString "\ny") = .ok (.success v₂ [[""], ["y"]]) ∧
      parseDocument (.ofString "y,z") = .ok (.success v₃ [["y", "z"]])) ∧
    '\n' ∈ "x\r\n\"\n\"\r\n".toList.getLast? ∧
    parseDocument (.ofString ("x\r\n\"\n\"\r\n" ++ "\ny")) =
      .ok (.success (.ofString ("x\r\n\"\n\"\r\n" ++ "\ny") 10)
        [["x"], ["\n"], [""], ["y"]]) ∧
    parseDocument (.ofString ("x\r\n\"\n\"\r\n" ++ "y,z")) =
      .ok (.fail (.ofString ("x\r\n\"\n\"\r\n" ++ "y,z") 6)
        (.invalidInput "more fields in this record")) := by
  have hfirst : parseDocument (.ofString "x\r\n\"\n\"\r\n") =
      .ok (.success (.ofString "x\r\n\"\n\"\r\n" 8) [["x"], ["\n"]]) := by decide +kernel
  have hsame : parseDocument (.ofString "\ny") =
      .ok (.success (.ofString "\ny" 2) [[""], ["y"]]) := by decide +kernel
  have hwider : parseDocument (.ofString "y,z") =
      .ok (.success (.ofString "y,z" 3) [["y", "z"]]) := by decide +kernel
  have hlf : '\n' ∈ "x\r\n\"\n\"\r\n".toList.getLast? := by decide
  refine ⟨⟨_, _, _, hfirst, hsame, hwider⟩, hlf, ?_, ?_⟩
  · obtain ⟨n₁, n₂, hwidth₁, hwidth₂, htogether, -⟩ := parseDocument_append hfirst hsame hlf
    exact htogether ((hwidth₁.2 ["x"] (by simp)).symm.trans (hwidth₂.2 ["y"] (by simp)))
  · obtain ⟨n₁, n₂, hwidth₁, hwidth₂, -, hapart⟩ := parseDocument_append hfirst hwider hlf
    obtain rfl : 1 = n₁ := hwidth₁.2 ["x"] (by simp)
    obtain rfl : 2 = n₂ := hwidth₂.2 ["y", "z"] (by simp)
    exact hapart (by decide)

end Delimited
