import Delimited.Proofs.Grammar.Concatenation

/-!
# Reading what was written

The writer produces encodings, of fields, of records and of documents, and
reading an encoding gives back what it encodes. A written record is never empty,
so that the last record of a document is there with or without a line break.

## Main results

* `Writer.recordEnc_line`, `Writer.line_ne_nil`: a record is written as an encoding that is
  not empty.
* `Writer.linesEnc_intercalate`: records of one width are written as encoded lines.
* `Writer.exists_document_eq`: records of one width are written as an encoding of
  the document.
* `exists_formatDocument_eq`: records of one width are written and read back.
* `parseDocument_formatDocumentWith`: the same for line breaks given by their text.
-/

namespace Delimited

open Grammar

namespace Writer

variable {n : Nat} {r : Record} {d : Document}

theorem fieldEnc_field (v : String) : FieldEnc (field v.toList) v := by
  unfold field
  split
  · exact .quoted v
  · rename_i hplain
    refine .bare fun c hc => isSpecial_eq_false_iff.mp ?_
    rw [List.any_eq_true, not_exists] at hplain
    simpa using fun hspecial => hplain c ⟨hc, hspecial⟩

theorem field_ne_nil {cs : List Char} (h : cs ≠ []) : field cs ≠ [] := by
  unfold field
  split
  · simp
  · exact h

theorem recordEnc_intercalate (h : r ≠ []) :
    RecordEnc ([','].intercalate (r.map fun v => field v.toList)) r := by
  induction r with
  | nil => exact absurd rfl h
  | cons v r ih =>
    cases r with
    | nil => simpa using RecordEnc.single (fieldEnc_field v)
    | cons w r =>
      have hothers := RecordEnc.cons (fieldEnc_field v) (ih (by simp))
      rw [List.map_cons, List.map_cons, List.intercalate_cons_cons]
      simpa using hothers

theorem intercalate_ne_nil (h : r ≠ []) (hempty : r ≠ [""]) :
    [','].intercalate (r.map fun v => field v.toList) ≠ [] := by
  cases r with
  | nil => exact absurd rfl h
  | cons v r =>
    cases r with
    | nil =>
      -- One empty field would be written as nothing, which `hempty` excludes.
      have hv : v.toList ≠ [] := by simpa using hempty
      simpa using field_ne_nil hv
    | cons w r =>
      rw [List.map_cons, List.map_cons, List.intercalate_cons_cons]
      simp

/-- The written form of a record that has fields. -/
def line (r : Record) : List Char :=
  if r = [""] then ['"', '"'] else [','].intercalate (r.map fun v => field v.toList)

theorem record_eq_line (h : r ≠ []) : record r = .ok (line r) := by
  unfold record
  split
  · exact absurd rfl h
  · rfl
  · rename_i hempty
    rw [line, if_neg hempty]

theorem recordEnc_line (h : r ≠ []) : RecordEnc (line r) r := by
  unfold line
  split
  · rename_i hempty
    subst hempty
    exact .single (by simpa using FieldEnc.quoted "")
  · exact recordEnc_intercalate h

theorem line_ne_nil (h : r ≠ []) : line r ≠ [] := by
  unfold line
  split
  · simp
  · rename_i hempty
    exact intercalate_ne_nil h hempty

/-! ### Lines -/

theorem mapM_record_eq (h : ∀ r ∈ d, r ≠ []) : d.mapM record = .ok (d.map line) := by
  induction d with
  | nil => rfl
  | cons r d ih =>
    rw [List.mapM_cons, record_eq_line (h r (by simp)), ih fun x hx => h x (by simp [hx])]
    rfl

/-- Lines before a line break and lines behind it are the lines of both. -/
theorem intercalate_append {s : List Char} {ls ms : List (List Char)} (hls : ls ≠ [])
    (hms : ms ≠ []) : s.intercalate (ls ++ ms) = s.intercalate ls ++ s ++ s.intercalate ms := by
  induction ls with
  | nil => exact absurd rfl hls
  | cons l ls ih =>
    by_cases hlast : ls = []
    · simp [hlast, List.intercalate_cons_of_ne_nil hms]
    · rw [List.cons_append, List.intercalate_cons_of_ne_nil (by simp [hms]), ih hlast,
        List.intercalate_cons_of_ne_nil hlast]
      simp

/-- A record of width at least one has fields. -/
theorem ne_nil_of_width (hn : 1 ≤ n) (hwidth : ∀ r ∈ d, r.length = n) : ∀ r ∈ d, r ≠ [] := by
  rintro r hr rfl
  rw [← hwidth [] hr] at hn
  simp at hn

/-- The lines of records of one width, with line breaks between them, encode the records. -/
theorem joinedEnc_intercalate (b : LineBreak) (hd : d ≠ []) (hn : 1 ≤ n)
    (hwidth : ∀ r ∈ d, r.length = n) : JoinedEnc n (b.chars.intercalate (d.map line)) d := by
  have hfields := ne_nil_of_width hn hwidth
  induction d with
  | nil => exact absurd rfl hd
  | cons r d ih =>
    have henc := recordEnc_line (hfields r (by simp))
    have hr := hwidth r (by simp)
    cases d with
    | nil => simpa using JoinedEnc.last henc hr
    | cons r' d =>
      rw [List.map_cons, List.map_cons, List.intercalate_cons_cons]
      exact .cons henc hr b (ih (by simp) (fun x hx => hwidth x (by simp [hx]))
        fun x hx => hfields x (by simp [hx]))

/-- The same with a line break or nothing at the end is an encoding of the document, since
the last line is not empty. -/
theorem linesEnc_intercalate (b : LineBreak) {e : List Char} (he : IsEnding e) (hd : d ≠ [])
    (hn : 1 ≤ n) (hwidth : ∀ r ∈ d, r.length = n) :
    LinesEnc n (b.chars.intercalate (d.map line) ++ e) d := by
  obtain rfl | ⟨d, r, rfl⟩ := List.eq_nil_or_concat' d
  · exact absurd rfl hd
  have hr : r ≠ [] := ne_nil_of_width hn hwidth r (by simp)
  have hlast : LinesEnc n (line r ++ e) [r] :=
    .last (recordEnc_line hr) (hwidth r (by simp)) he (.inl (line_ne_nil hr))
  by_cases hfront : d = []
  · simpa [hfront] using hlast
  · have hjoined := joinedEnc_intercalate b hfront hn fun x hx => hwidth x (by simp [hx])
    have hlines := hjoined.append b hlast
    rw [List.map_append, intercalate_append (by simpa using hfront) (by simp)]
    simpa using hlines

/-! ### Documents -/

/-- Records with fields are written as their lines with line breaks between them, and one
behind the last on demand. -/
theorem document_eq (b : LineBreak) (trailing : Bool) (hd : d ≠ []) (h : ∀ r ∈ d, r ≠ []) :
    document b trailing d =
      .ok (b.chars.intercalate (d.map line) ++ if trailing then b.chars else []) := by
  -- The last line break is not left out, since something is written before it.
  have hbody : b.chars.intercalate (d.map line) ≠ [] := by
    obtain ⟨r, d, rfl⟩ := List.exists_cons_of_ne_nil hd
    have hline := line_ne_nil (h r (by simp))
    cases d with
    | nil => simpa using hline
    | cons r' d =>
      rw [List.map_cons, List.map_cons, List.intercalate_cons_cons]
      simp [hline]
  have hlines := mapM_record_eq h
  simp only [document, hlines, bind, Except.bind, pure, Except.pure]
  cases trailing <;> simp [hbody]

theorem isEnding_trailing (b : LineBreak) (trailing : Bool) :
    IsEnding (if trailing then b.chars else []) := by
  cases trailing
  · exact .inl rfl
  · exact .inr ⟨b, rfl⟩

/-- Records of one width are written as an encoding of the document. -/
theorem exists_document_eq (b : LineBreak) (trailing : Bool) (hd : d ≠ []) (hn : 1 ≤ n)
    (hwidth : ∀ r ∈ d, r.length = n) :
    ∃ s, document b trailing d = .ok s ∧ DocEnc s d := by
  refine ⟨_, document_eq b trailing hd (ne_nil_of_width hn hwidth), n, ?_⟩
  exact linesEnc_intercalate b (isEnding_trailing b trailing) hd hn hwidth

end Writer

variable {d : Document} {n : Nat}

theorem formatDocumentWith_eq (b : LineBreak) (trailing : Bool) (hd : d ≠ [])
    (h : ∀ r ∈ d, r ≠ []) :
    formatDocumentWith (String.ofList b.chars) trailing d =
      .ok (String.ofList (b.chars.intercalate (d.map Writer.line) ++
        if trailing then b.chars else [])) := by
  have hbreak : LineBreak.ofText (String.ofList b.chars) = .ok b := by cases b <;> rfl
  simp only [formatDocumentWith, hbreak, formatDocument, bind, Except.bind,
    Writer.document_eq b trailing hd h, Except.map]

/-- Records of one width are written as a text that is read to its end. -/
theorem exists_formatDocument_eq (b : LineBreak) (trailing : Bool) (hd : d ≠ []) (hn : 1 ≤ n)
    (hwidth : ∀ r ∈ d, r.length = n) :
    ∃ text, formatDocument d b trailing = .ok text ∧
      parseDocument (.ofString text) = .ok (.success (.ofString text text.length) d) := by
  obtain ⟨s, hs, henc⟩ := Writer.exists_document_eq b trailing hd hn hwidth
  refine ⟨String.ofList s, by simp [formatDocument, hs, Except.map], ?_⟩
  exact DocEnc.parseDocument_eq (by rwa [String.toList_ofList])

/-- Reading undoes writing: records of one width, whatever their fields hold, are
written, with either line break and with or without a last one, as a text that is
read to its end as the same records. -/
theorem parseDocument_formatDocumentWith {terminator : String}
    (hterminator : terminator ∈ ["\r\n", "\n"]) (trailing : Bool) (hd : d ≠ []) (hn : 1 ≤ n)
    (hwidth : ∀ r ∈ d, r.length = n) :
    ∃ text, formatDocumentWith terminator trailing d = .ok text ∧
      parseDocument (.ofString text) = .ok (.success (.ofString text text.length) d) := by
  obtain ⟨b, hb⟩ : ∃ b, LineBreak.ofText terminator = .ok b := by
    simp only [List.mem_cons, List.not_mem_nil, or_false] at hterminator
    rcases hterminator with rfl | rfl
    · exact ⟨.crlf, rfl⟩
    · exact ⟨.lf, rfl⟩
  obtain ⟨s, hs, henc⟩ := Writer.exists_document_eq b trailing hd hn hwidth
  refine ⟨String.ofList s, ?_, ?_⟩
  · simp only [formatDocumentWith, hb, formatDocument, bind, Except.bind, hs, Except.map]
  · rw [View.ofString_zero, View.ofString_length, String.toList_ofList]
    simpa [parseDocument] using henc.reads []

/-- Fields made of special characters, empty fields and empty lines read back. -/
theorem parseDocument_formatDocumentWith_special :
    ∃ text, formatDocumentWith "\n" false [[""], [",\"\r\n"], ["\""], [""]] = .ok text ∧
      parseDocument (.ofString text) =
        .ok (.success (.ofString text text.length) [[""], [",\"\r\n"], ["\""], [""]]) :=
  parseDocument_formatDocumentWith (n := 1) (by decide) false (by decide) (by decide)
    (by decide)

end Delimited
