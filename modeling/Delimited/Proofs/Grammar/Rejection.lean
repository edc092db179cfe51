import Delimited.Proofs.Grammar.Document

/-!
# Why a document is rejected

A document is rejected for one of three reasons, and where it is rejected is
where the text shows the reason: nothing is left to read; something stands in
the text that continues no record and ends none; or a record has another width
than those before it, all of which make a document by themselves.

## Main definitions

* `Accepts`: a text is read to its end as a document.
* `Rejection.NothingLeft`, `Rejection.Stray`, `Rejection.WrongWidth`: the reasons,
  with what they say about the text.

## Main results

* `exists_parseDocument_eq_and_reason`: reading a view within its text has an answer,
  and a rejection has exactly one of these reasons.
-/

namespace Delimited

open Grammar

/-- The text is read to its end, as the document `d`. -/
def Accepts (text : String) (d : Document) : Prop :=
  parseDocument (.ofString text) = .ok (.success (.ofString text text.length) d)

namespace Rejection

/-- The rejection says that nothing is left, at the view that was given. -/
def NothingLeft (v : View) (e : Rejection) : Prop := e = ⟨v, .noInput⟩

/-- The rejection stands, in the text of the view and not before it, at a character
that is no comma and begins no line break. -/
def Stray (v : View) (e : Rejection) : Prop :=
  ∃ o : Nat, e = ⟨⟨v.text, o⟩, .failure (.invalidInput "comma or a line break")⟩ ∧
    v.offset ≤ o ∧ o < v.text.size ∧ v.text[o]? ≠ some ',' ∧
    ∀ b : LineBreak, ¬ b.chars <+: v.text.toList.drop o

/-- The rejection stands, in the text of the view and not before it, at a line
break. What precedes it, with the line break, is a document of some width, and
what follows it begins with a record of another. -/
def WrongWidth (v : View) (e : Rejection) : Prop :=
  ∃ (o : Nat) (b : LineBreak) (n : Nat) (d : Document) (r : Record) (remaining : View),
    e = ⟨⟨v.text, o⟩, .failure (.invalidInput "more fields in this record")⟩ ∧
    v.offset ≤ o ∧ b.chars <+: v.text.toList.drop o ∧
    Accepts (String.ofList (v.slice v.offset o ++ b.chars)) d ∧
    d ≠ [] ∧ (∀ x ∈ d, x.length = n) ∧ o + b.chars.length < v.text.size ∧
    record.run ⟨v.text, o + b.chars.length⟩ = .ok (.success remaining r) ∧ r.length ≠ n

variable {v : View} {e : Rejection}

theorem NothingLeft.code_eq (h : e.NothingLeft v) : e.code = .noInput :=
  congrArg code h

theorem Stray.code_eq (h : e.Stray v) :
    e.code = .failure (.invalidInput "comma or a line break") := by
  obtain ⟨o, rfl, -⟩ := h
  rfl

theorem WrongWidth.code_eq (h : e.WrongWidth v) :
    e.code = .failure (.invalidInput "more fields in this record") := by
  obtain ⟨o, b, n, d, r, w, rfl, -⟩ := h
  rfl

end Rejection

/-! ### Positions in a text -/

namespace View

variable {before s t : List Char}

theorem between_append :
    between (before ++ s) t = ⟨(between before (s ++ t)).text, (before ++ s).length⟩ := by
  simp [between]

theorem drop_text_between :
    (between before (s ++ t)).text.toList.drop (before ++ s).length = t := by
  rw [text_between, ← List.append_assoc]
  exact List.drop_left

theorem slice_between :
    (between before (s ++ t)).slice before.length (before ++ s).length = s := by
  -- Both ends of the slice lie in the text, so that nothing is moved into it.
  have hcut (n k : Nat) : cut n k = min k n := by
    have h : ¬ (k : Int) < 0 := by omega
    simp [cut, h]
  rw [slice, hcut, hcut, text_between, ← List.append_assoc, List.size_toArray,
    Nat.min_eq_left (by simp), Nat.min_eq_left (by simp), List.take_left, List.drop_left]

end View

/-! ### The reasons -/

variable {before s s' t : List Char} {d : Document} {r : Record} {n : Nat}

theorem stray_between (ht : t ≠ []) (hcomma : ',' ∉ t.head?)
    (hbreak : ∀ b : LineBreak, ¬ b.chars <+: t) :
    Rejection.Stray (.between before (s ++ t))
      ⟨.between (before ++ s) t, .failure (.invalidInput trailing)⟩ := by
  have hpos := List.length_pos_of_ne_nil ht
  refine ⟨(before ++ s).length, by rw [View.between_append]; rfl, ?_, ?_, ?_, ?_⟩
  · simp only [View.offset_between, List.length_append]
    omega
  · simpa using hpos
  · rw [← Array.getElem?_toList, ← List.head?_drop, View.drop_text_between]
    exact hcomma
  · rw [View.drop_text_between]
    exact hbreak

theorem wrongWidth_between (b : LineBreak) (hlines : LinesEnc n (s ++ b.chars) d)
    (hne : s' ++ t ≠ []) (hread : record.run.Reads s' r t) (hwidth : r.length ≠ n) :
    Rejection.WrongWidth (.between before (s ++ (b.chars ++ (s' ++ t))))
      ⟨.between (before ++ s) (b.chars ++ (s' ++ t)), .failure (.invalidInput moreFields)⟩ := by
  have hpos := List.length_pos_of_ne_nil hne
  have hdoc : DocEnc (s ++ b.chars) d := ⟨n, hlines⟩
  -- The record after the line break is read from the view behind it.
  have hview : View.between (before ++ s ++ b.chars) (s' ++ t) =
      ⟨(View.between before (s ++ (b.chars ++ (s' ++ t)))).text,
        (before ++ s).length + b.chars.length⟩ := by
    simp [View.between, Int.add_assoc]
  refine ⟨(before ++ s).length, b, n, d, r, _, by rw [View.between_append]; rfl, ?_, ?_, ?_,
    hlines.document_ne_nil, hlines.width_eq, ?_, hview ▸ hread (before ++ s ++ b.chars), hwidth⟩
  · simp only [View.offset_between, List.length_append]
    omega
  · rw [View.drop_text_between]
    exact List.prefix_append _ _
  · -- What precedes is an encoding by itself, and so is read by itself.
    rw [View.offset_between, View.slice_between, Accepts]
    simp only [View.ofString_zero, View.ofString_length, String.toList_ofList]
    simpa [parseDocument] using hdoc.reads []
  · simp only [View.text_between, List.size_toArray, List.length_append] at hpos ⊢
    omega

/-- A document is rejected because nothing is left, or for one of the other
reasons, or accepted. -/
theorem parseDocument_cases {v : View} (hv : v.Within) :
    (v.rest = [] ∧ parseDocument v = .ok (.rejected ⟨v, .noInput⟩)) ∨
      v.rest ≠ [] ∧ ((∃ e, parseDocument v = .ok (.rejected e) ∧ (e.Stray v ∨ e.WrongWidth v)) ∨
        ∃ remaining d, parseDocument v = .ok (.success remaining d)) := by
  -- Only the text ahead of the view matters, so the view is written with it.
  generalize hbefore : v.before = before
  generalize hrest : v.rest = l
  obtain rfl : .between before l = v := by rw [← hbefore, ← hrest, View.between_before_rest hv]
  by_cases hl : l = []
  · subst hl
    have hreject := document_rejects_nil before
    simp only [List.append_nil] at hreject
    exact .inl ⟨rfl, hreject⟩
  · refine .inr ⟨hl, ?_⟩
    cases verdict hl with
    | accepted enc reads =>
      have hread := reads before
      rw [List.append_nil] at hread
      exact .inr ⟨_, _, hread⟩
    | stray rejects nonempty comma lineBreak =>
      exact .inl ⟨_, rejects before, .inl (stray_between nonempty comma lineBreak)⟩
    | width b rejects lines nonempty reads width =>
      exact .inl ⟨_, rejects before, .inr (wrongWidth_between b lines nonempty reads width)⟩

/-- Reading a document from a view within its text has an answer. It is rejected
because nothing is left exactly when the view is at the end of its text, and
every rejection has exactly one of the three reasons. -/
theorem exists_parseDocument_eq_and_reason (v : View) (hv : v.Within) :
    ∃ outcome, parseDocument v = .ok outcome ∧
      ((∃ e, outcome = .rejected e ∧ e.code = .noInput) ↔ v.rest = []) ∧
      ∀ e, outcome = .rejected e →
        (e.NothingLeft v ∨ e.Stray v ∨ e.WrongWidth v) ∧ ¬ (e.NothingLeft v ∧ e.Stray v) ∧
          ¬ (e.NothingLeft v ∧ e.WrongWidth v) ∧ ¬ (e.Stray v ∧ e.WrongWidth v) := by
  have hapart (e : Rejection) : ¬ (e.NothingLeft v ∧ e.Stray v) ∧
      ¬ (e.NothingLeft v ∧ e.WrongWidth v) ∧ ¬ (e.Stray v ∧ e.WrongWidth v) := by
    -- The codes tell the reasons apart.
    refine ⟨?_, ?_, ?_⟩ <;>
    · rintro ⟨h, h'⟩
      simpa using h.code_eq.symm.trans h'.code_eq
  rcases parseDocument_cases hv with ⟨hrest, h⟩ | ⟨hrest, ⟨e, h, hreason⟩ | ⟨remaining, d, h⟩⟩
  · refine ⟨_, h, ⟨fun _ => hrest, fun _ => ⟨_, rfl, rfl⟩⟩, ?_⟩
    rintro e ⟨⟩
    exact ⟨.inl rfl, hapart _⟩
  · refine ⟨_, h, ⟨?_, fun hnil => absurd hnil hrest⟩, ?_⟩
    · rintro ⟨e, ⟨⟩, hcode⟩
      rcases hreason with hstray | hwidth
      · simpa using hstray.code_eq.symm.trans hcode
      · simpa using hwidth.code_eq.symm.trans hcode
    · rintro e ⟨⟩
      exact ⟨.inr hreason, hapart _⟩
  · refine ⟨_, h, ⟨?_, fun hnil => absurd hnil hrest⟩, ?_⟩
    · rintro ⟨e, ⟨⟩, -⟩
    · rintro e ⟨⟩

/-- The case of a view behind a first character, with a record of another width ahead. -/
theorem exists_parseDocument_eq_and_reason_width :
    (View.ofString ";a\nb,c" 1).Within ∧
      ∃ outcome, parseDocument (.ofString ";a\nb,c" 1) = .ok outcome ∧
        ((∃ e, outcome = .rejected e ∧ e.code = .noInput) ↔
          (View.ofString ";a\nb,c" 1).rest = []) ∧
        ∀ e, outcome = .rejected e →
          (e.NothingLeft (.ofString ";a\nb,c" 1) ∨ e.Stray (.ofString ";a\nb,c" 1) ∨
            e.WrongWidth (.ofString ";a\nb,c" 1)) ∧
          ¬ (e.NothingLeft (.ofString ";a\nb,c" 1) ∧ e.Stray (.ofString ";a\nb,c" 1)) ∧
          ¬ (e.NothingLeft (.ofString ";a\nb,c" 1) ∧ e.WrongWidth (.ofString ";a\nb,c" 1)) ∧
          ¬ (e.Stray (.ofString ";a\nb,c" 1) ∧ e.WrongWidth (.ofString ";a\nb,c" 1)) :=
  ⟨by decide, exists_parseDocument_eq_and_reason _ (by decide)⟩

end Delimited
