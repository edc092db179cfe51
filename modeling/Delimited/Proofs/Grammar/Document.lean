import Delimited.Proofs.Grammar.Record

/-!
# Reading a document

After the first record the repetition takes turns of a line break and a record.
It ends in one of three ways: what is left is a line break or nothing, and the
document is complete; or something else is left; or a record has another width
than the first. From what each turn does follows what reading a whole document
does, for every text.

## Main definitions

* `Grammar.nextRecord n`: a line break and a record of width `n`, one turn.
* `Grammar.Continues n s rs e`: with `e` behind it, `s` continues an encoding of
  a record of width `n` to one of that record and `rs`.
* `Grammar.Verdict l`: the three ways in which reading a document may end.

## Main results

* `Grammar.verdict`: a text that is not empty is read in one of these ways.
* `Grammar.DocEnc.reads`: an encoding of a document is read as that document.
* `Grammar.parseDocument_eq_success_iff_docEnc`: the texts that are accepted are
  the encodings of documents, and each encodes the document it is read as.
-/

namespace Delimited.Grammar

open Delimited.Parser

variable {n : Nat} {s s' t e l : List Char} {r : Record} {d rs : Document} {b : LineBreak}

theorem head?_chars_append (b : LineBreak) (t : List Char) :
    ∀ c ∈ (b.chars ++ t).head?, c ∈ ['\r', '\n'] := by
  cases b <;> simp [LineBreak.chars]

theorem chars_ne_nil (b : LineBreak) : b.chars ≠ [] := by
  cases b <;> simp [LineBreak.chars]

/-- What may stand at the end of a document: a line break or nothing. -/
def IsEnding (e : List Char) : Prop := e = [] ∨ ∃ b : LineBreak, e = b.chars

theorem IsEnding.head? (h : IsEnding e) : ∀ c ∈ e.head?, c ∈ ['\r', '\n'] := by
  rcases h with rfl | ⟨b, rfl⟩
  · simp
  · simpa using head?_chars_append b []

/-! ### One turn -/

/-- Reads a line break and a record of width `n`. -/
def nextRecord (n : Nat) : Parser Record :=
  lineBreak.right (record.require (fun r => r.length == n) moreFields)

theorem reads_nextRecord (b : LineBreak) (h : record.run.Reads s r t) (hr : r.length = n) :
    (nextRecord n).run.Reads (b.chars ++ s) r t :=
  ((reads_lineBreak b (s ++ t)).pair (h.require moreFields (by simpa using hr))).map Prod.snd

/-- A record of another width is rejected for good, at the line break before it. -/
theorem nextRecord_rejects_width (b : LineBreak) (h : record.run.Reads s r t)
    (hr : r.length ≠ n) :
    (nextRecord n).run.Rejects [] (.failure (.invalidInput moreFields))
      (b.chars ++ (s ++ t)) := by
  have hwidth : (record.require (fun r => r.length == n) moreFields).run.Rejects []
      (.failure (.invalidInput moreFields)) (s ++ t) :=
    h.require_rejects moreFields (by simpa using hr)
  exact ((reads_lineBreak b ([] ++ (s ++ t))).pair_rejects hwidth).map Prod.snd

/-- There is no turn at the end of a document, nor where no line break stands. -/
theorem nextRecord_rejects (h : IsEnding l ∨ ∀ b : LineBreak, ¬ b.chars <+: l) :
    ∃ c : Code, c.isHard = false ∧ (nextRecord n).run.Rejects [] c l := by
  by_cases hbreak : ∀ b : LineBreak, ¬ b.chars <+: l
  · exact ⟨.lineBreak, rfl, (lineBreak_rejects hbreak).pair.map Prod.snd⟩
  · rcases h with (rfl | ⟨b, rfl⟩) | h
    · refine absurd (fun b => ?_) hbreak
      simpa using chars_ne_nil b
    · -- The line break is read, and then no record is left.
      have hnone := (reads_lineBreak b ([] ++ [])).pair_rejects
        (record_rejects_nil.require (fun r => r.length == n) moreFields)
      rw [List.append_nil, List.append_nil] at hnone
      exact ⟨.noInput, rfl, hnone.map Prod.snd⟩
    · exact absurd h hbreak

/-! ### All turns -/

/-- With `e` behind it, `s` continues any encoding of a record of width `n` to an
encoding of that record and the records `rs`. -/
def Continues (n : Nat) (s : List Char) (rs : Document) (e : List Char) : Prop :=
  ∀ s₀ r₀, RecordEnc s₀ r₀ → r₀.length = n → s₀ ++ (s ++ e) ≠ [] →
    LinesEnc n (s₀ ++ (s ++ e)) (r₀ :: rs)

theorem continues_nil (he : IsEnding e) : Continues n [] [] e := by
  intro s₀ r₀ henc hwidth hne
  rw [List.nil_append, ne_eq, List.append_eq_nil_iff, not_and_or] at hne
  exact .last henc hwidth he hne

theorem Continues.cons (b : LineBreak) (henc : RecordEnc s r) (hwidth : r.length = n)
    (hne : s ++ (s' ++ e) ≠ []) (h : Continues n s' rs e) :
    Continues n (b.chars ++ s ++ s') (r :: rs) e := by
  intro s₀ r₀ henc₀ hwidth₀ _
  -- The record `r` takes the place of the first one in what `h` continues.
  have hlines := LinesEnc.cons henc₀ hwidth₀ b (h s r henc hwidth hne)
  simpa using hlines

/-- The ways in which the records after the first are read. -/
inductive Turns (n : Nat) : List Char → Prop where
  /-- A line break or nothing is left. -/
  | complete {s e : List Char} {rs : Document} (reads : (nextRecord n).many.run.Reads s rs e)
      (ending : IsEnding e) (continues : Continues n s rs e) : Turns n (s ++ e)
  /-- Something else is left. -/
  | stray {s t : List Char} {rs : Document} (reads : (nextRecord n).many.run.Reads s rs t)
      (nonempty : t ≠ []) (comma : ',' ∉ t.head?) (lineBreak : ∀ b : LineBreak, ¬ b.chars <+: t) :
      Turns n (s ++ t)
  /-- The next record has another width. -/
  | width {s s' t : List Char} {rs : Document} {r : Record} (b : LineBreak)
      (rejects : (nextRecord n).many.run.Rejects s (.failure (.invalidInput moreFields))
        (b.chars ++ (s' ++ t)))
      (continues : Continues n s rs b.chars) (nonempty : s' ++ t ≠ [])
      (reads : record.run.Reads s' r t) (width : r.length ≠ n) :
      Turns n (s ++ (b.chars ++ (s' ++ t)))

/-- A turn is taken in front of any way to go on. -/
theorem Turns.cons (b : LineBreak) (henc : RecordEnc s r) (hwidth : r.length = n)
    (hne : s ++ t ≠ []) (hread : record.run.Reads s r t) (h : Turns n t) :
    Turns n (b.chars ++ s ++ t) := by
  have hturn := reads_nextRecord b hread hwidth
  have hsome : b.chars ++ s ≠ [] := by simp [chars_ne_nil]
  cases h with
  | complete reads ending continues =>
    rw [← List.append_assoc]
    exact .complete (hturn.many_cons hsome reads) ending (continues.cons b henc hwidth hne)
  | stray reads nonempty comma lineBreak =>
    rw [← List.append_assoc]
    exact .stray (hturn.many_cons hsome reads) nonempty comma lineBreak
  | @width s' _ _ _ _ b' rejects continues nonempty reads width =>
    rw [← List.append_assoc]
    have hne' : s ++ (s' ++ b'.chars) ≠ [] := by simp [chars_ne_nil]
    exact .width b' (hturn.many_rejects hsome rejects) (continues.cons b henc hwidth hne')
      nonempty reads width

/-- The turns after a record end in one of the three ways. -/
theorem turns (n : Nat) (l : List Char) (hcomma : ',' ∉ l.head?) : Turns n l := by
  generalize hm : l.length = m
  -- The induction is on the length, and keeps that no comma stands where a turn begins.
  induction m using Nat.strongRecOn generalizing l with
  | _ m ih =>
    by_cases hstop : IsEnding l ∨ ∀ b : LineBreak, ¬ b.chars <+: l
    · obtain ⟨c, hc, hrejects⟩ := nextRecord_rejects (n := n) hstop
      have hreads : (nextRecord n).many.run.Reads [] [] l := hrejects.many_nil hc
      by_cases hending : IsEnding l
      · exact .complete hreads hending (continues_nil hending)
      · have hne : l ≠ [] := fun hnil => hending (.inl hnil)
        exact .stray hreads hne hcomma (hstop.resolve_left hending)
    · -- A line break stands here, and a record after it.
      simp only [not_or, not_forall, not_not] at hstop
      obtain ⟨hending, b, l, rfl⟩ := hstop
      have hne : l ≠ [] := fun hnil => hending (.inr ⟨b, by simp [hnil]⟩)
      obtain ⟨s, r, t, rfl, henc, ht, hread⟩ := exists_reads_record hne
      by_cases hwidth : r.length = n
      · have hshorter : t.length < m := by
          have hpos := List.length_pos_of_ne_nil (chars_ne_nil b)
          simp only [List.length_append] at hm
          omega
        rw [← List.append_assoc]
        exact (ih _ hshorter t ht rfl).cons b henc hwidth hne hread
      · -- No turn was taken, so the record before is encoded with this line break.
        have hrejects := (nextRecord_rejects_width b hread hwidth).many rfl
        exact .width (s := []) b hrejects (continues_nil (.inr ⟨b, rfl⟩)) hne hread hwidth

/-! ### After the records -/

theorem finish_reads (d : Document) (he : IsEnding e) : (finish d).Reads e d [] := by
  intro before
  rcases he with rfl | ⟨b, rfl⟩
  · simp [finish]
  · have hread := reads_lineBreak b [] before
    simp only [List.append_nil] at hread ⊢
    simp [finish, View.nonempty_between (chars_ne_nil b), hread]

theorem finish_rejects (d : Document) (ht : ¬ IsEnding t) :
    (finish d).Rejects [] (.failure (.invalidInput trailing)) t := by
  intro before
  have hne : t ≠ [] := fun hnil => ht (.inl hnil)
  simp only [List.nil_append, List.append_nil, finish, View.nonempty_between hne]
  by_cases hbreak : ∀ b : LineBreak, ¬ b.chars <+: t
  · have hreject := lineBreak_rejects hbreak before
    simp only [List.nil_append, List.append_nil] at hreject
    simp [hreject, Outcome.reject, Outcome.fail]
  · -- A line break is not enough when more follows it.
    simp only [not_forall, not_not] at hbreak
    obtain ⟨b, t, rfl⟩ := hbreak
    have hmore : t ≠ [] := fun hnil => ht (.inr ⟨b, by simp [hnil]⟩)
    have hread := reads_lineBreak b t before
    simp [hread, View.nonempty_between hmore, Outcome.fail]

/-! ### Documents -/

theorem reads_records {s₀ : List Char} {r₀ : Record} (h : record.run.Reads s₀ r₀ (s ++ t))
    (hmany : (nextRecord r₀.length).many.run.Reads s rs t) :
    records.run.Reads (s₀ ++ s) (r₀ :: rs) t :=
  h.bind (hmany.map _)

theorem records_rejects {s₀ : List Char} {r₀ : Record} {c : Code}
    (h : record.run.Reads s₀ r₀ (s ++ t)) (hmany : (nextRecord r₀.length).many.run.Rejects s c t) :
    records.run.Rejects (s₀ ++ s) c t :=
  h.bind_rejects (hmany.map _)

/-- The records are a document when a line break or nothing follows them. -/
theorem reads_document (h : records.run.Reads s d e) (he : IsEnding e) :
    document.run.Reads (s ++ e) d [] := by
  rw [← List.append_nil e] at h
  exact h.bind (finish_reads d he)

theorem document_rejects_stray (h : records.run.Reads s d t) (ht : t ≠ [])
    (hbreak : ∀ b : LineBreak, ¬ b.chars <+: t) :
    document.run.Rejects s (.failure (.invalidInput trailing)) t := by
  have hending : ¬ IsEnding t := by
    rintro (hnil | ⟨b, rfl⟩)
    · exact ht hnil
    · exact hbreak b List.prefix_rfl
  rw [← List.nil_append t] at h
  rw [← List.append_nil s]
  exact h.bind_rejects (finish_rejects d hending)

theorem document_rejects_nil : document.run.Rejects [] .noInput [] :=
  record_rejects_nil.bind.bind

/-- The ways in which reading a document may end, when there is something to read. -/
inductive Verdict : List Char → Prop where
  /-- The text is read to its end, and encodes what it is read as. -/
  | accepted {t : List Char} {d : Document} (enc : DocEnc t d)
      (reads : document.run.Reads t d []) : Verdict t
  /-- Something is left that continues no record and ends none. -/
  | stray {s t : List Char}
      (rejects : document.run.Rejects s (.failure (.invalidInput trailing)) t)
      (nonempty : t ≠ []) (comma : ',' ∉ t.head?) (lineBreak : ∀ b : LineBreak, ¬ b.chars <+: t) :
      Verdict (s ++ t)
  /-- What precedes a line break, with it, encodes records of one width, and what
  follows it begins with a record of another. -/
  | width {n : Nat} {s s' t : List Char} {d : Document} {r : Record} (b : LineBreak)
      (rejects : document.run.Rejects s (.failure (.invalidInput moreFields))
        (b.chars ++ (s' ++ t)))
      (lines : LinesEnc n (s ++ b.chars) d) (nonempty : s' ++ t ≠ [])
      (reads : record.run.Reads s' r t) (width : r.length ≠ n) :
      Verdict (s ++ (b.chars ++ (s' ++ t)))

theorem verdict (hl : l ≠ []) : Verdict l := by
  obtain ⟨s₀, r₀, l, rfl, henc, hcomma, hread⟩ := exists_reads_record hl
  -- How the document ends is how the turns after its first record do.
  cases turns r₀.length l hcomma with
  | @complete s e rs reads ending continues =>
    have hlines := continues s₀ r₀ henc rfl hl
    rw [← List.append_assoc] at hlines ⊢
    exact .accepted ⟨_, hlines⟩ (reads_document (reads_records hread reads) ending)
  | stray reads nonempty comma lineBreak =>
    have hrejects := document_rejects_stray (reads_records hread reads) nonempty lineBreak
    rw [← List.append_assoc]
    exact .stray hrejects nonempty comma lineBreak
  | @width s _ _ _ _ b rejects continues nonempty reads width =>
    have hne : s₀ ++ (s ++ b.chars) ≠ [] := by simp [chars_ne_nil]
    have hlines := continues s₀ r₀ henc rfl hne
    rw [← List.append_assoc] at hlines ⊢
    exact .width b (records_rejects hread rejects).bind hlines nonempty reads width

/-- An encoding is read first as its first record and then as the others. -/
theorem LinesEnc.reads_records (h : LinesEnc n t d) :
    ∃ s₀ r₀ s rs e, t = s₀ ++ (s ++ e) ∧ d = r₀ :: rs ∧ r₀.length = n ∧ IsEnding e ∧
      record.run.Reads s₀ r₀ (s ++ e) ∧ (nextRecord n).many.run.Reads s rs e := by
  induction h with
  | @last s e r henc width ending nonempty =>
    have hne : s ++ e ≠ [] := by
      rw [ne_eq, List.append_eq_nil_iff, not_and_or]
      exact nonempty
    obtain ⟨c, hc, hrejects⟩ := nextRecord_rejects (n := n) (.inl ending)
    exact ⟨s, r, [], [], e, rfl, rfl, width, ending, henc.reads hne (IsEnding.head? ending),
      hrejects.many_nil hc⟩
  | @cons s _ r _ henc width b _ ih =>
    -- The first record of the others, with the line break before it, is one more turn.
    obtain ⟨s₀, r₀, s', rs, e, rfl, rfl, hwidth, hending, hread, hmany⟩ := ih
    have hturn := reads_nextRecord b hread hwidth
    have hsome : b.chars ++ s₀ ≠ [] := by simp [chars_ne_nil]
    refine ⟨s, r, b.chars ++ s₀ ++ s', r₀ :: rs, e, by simp, rfl, width, hending, ?_,
      hturn.many_cons hsome hmany⟩
    refine henc.reads (by simp [chars_ne_nil]) ?_
    simpa using head?_chars_append b (s₀ ++ (s' ++ e))

/-- An encoding of a document is read as that document. -/
theorem DocEnc.reads (h : DocEnc t d) : document.run.Reads t d [] := by
  obtain ⟨n, hlines⟩ := h
  obtain ⟨s₀, r₀, s, rs, e, rfl, rfl, rfl, hending, hread, hmany⟩ := hlines.reads_records
  rw [← List.append_assoc]
  exact reads_document (Grammar.reads_records hread hmany) hending

/-- What is read to the end of a text is encoded by it. -/
theorem docEnc_of_success {before : List Char} {v : View}
    (h : parseDocument (.between before t) = .ok (.success v d)) :
    v = .between (before ++ t) [] ∧ DocEnc t d := by
  unfold parseDocument at h
  -- Of the ways in which reading may end, only one is a success.
  have hne : t ≠ [] := by
    rintro rfl
    have hsame := (document_rejects_nil before).symm.trans h
    simp [Outcome.reject] at hsame
  cases verdict hne with
  | accepted enc reads =>
    have hread := reads before
    rw [List.append_nil, h] at hread
    simp only [Except.ok.injEq, Outcome.success.injEq] at hread
    obtain ⟨rfl, rfl⟩ := hread
    exact ⟨rfl, enc⟩
  | stray rejects =>
    rw [rejects before] at h
    simp [Outcome.reject] at h
  | width b rejects =>
    rw [rejects before] at h
    simp [Outcome.reject] at h

/-- A text has one reading. -/
theorem DocEnc.unique {d' : Document} (h : DocEnc t d) (h' : DocEnc t d') : d = d' :=
  (h.reads.unique h'.reads rfl).2.1

/-- The texts that are accepted are the encodings of documents, and each is read,
to its end, as the one document it encodes. -/
theorem parseDocument_eq_success_iff_docEnc (t : String) (d : Document) :
    parseDocument (.ofString t) = .ok (.success (.ofString t t.length) d) ↔
      DocEnc t.toList d := by
  rw [View.ofString_zero, View.ofString_length]
  constructor
  · intro h
    exact (docEnc_of_success h).2
  · intro h
    simpa [parseDocument] using h.reads []

end Delimited.Grammar
