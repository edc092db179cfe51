import Delimited.Proofs.RoundTrip

/-!
# Records of different widths

A document whose records differ in width can be written, and reading finds the first
record whose width is not that of the first one. The records before it are read as they
were written, whatever they hold, so it is rejected where the line break before it
begins, which is as far as those records alone would have been written.

## Main definitions

* `firstRagged`: the place of the first record of another width.

## Main results

* `exists_eq_append_of_ragged`: the records before that place, and the one there.
* `Writer.document_rejects`: lines of one width, and then one of another.
* `parseDocument_formatDocumentWith_ragged`: records of different widths are written
  as a text that is rejected at the first one that differs.
-/

namespace Delimited

open Grammar

variable {d front : Document} {r : Record} {n : Nat}

/-- The place of the first record that is not as wide as the first one. -/
def firstRagged (d : Document) : Nat := d.findIdx fun r => r.length != (d.headD []).length

/-- Some records of one width precede the first one of another width. -/
theorem exists_eq_append_of_ragged (h : ∃ r ∈ d, r.length ≠ (d.headD []).length) :
    ∃ n r back, d = d.take (firstRagged d) ++ r :: back ∧ d.take (firstRagged d) ≠ [] ∧
      (∀ x ∈ d.take (firstRagged d), x.length = n) ∧ r.length ≠ n := by
  cases d with
  | nil => simp at h
  | cons first others =>
    have htake : (first :: others).take (firstRagged (first :: others)) =
        (first :: others).takeWhile fun r => r.length == first.length :=
      List.takeWhile_eq_take_findIdx_not.symm
    rw [htake]
    cases hdrop : (first :: others).dropWhile fun r => r.length == first.length with
    | nil =>
      -- Then all records are as wide as the first one.
      obtain ⟨r, hr, hother⟩ := h
      have hall := List.dropWhile_eq_nil_iff.mp hdrop r hr
      exact absurd (by simpa using hall) hother
    | cons r back =>
      have hstop := List.head?_dropWhile_not (fun r => r.length == first.length) (first :: others)
      rw [hdrop] at hstop
      refine ⟨first.length, r, back, ?_, by simp, ?_, by simpa using hstop⟩
      · rw [← hdrop, List.takeWhile_append_dropWhile]
      · intro x hx
        simpa using List.mem_takeWhile_imp hx

namespace Writer

/-- Behind lines of one width, a line of another is rejected at the line break before it. -/
theorem document_rejects (b : LineBreak) (back : Document) {e : List Char} (he : IsEnding e)
    (hfront : front ≠ []) (hn : 1 ≤ n) (hwidth : ∀ x ∈ front, x.length = n) (hr : r ≠ [])
    (hother : r.length ≠ n) :
    Grammar.document.run.Rejects (b.chars.intercalate (front.map line))
      (.failure (.invalidInput moreFields))
      (b.chars ++ (b.chars.intercalate ((r :: back).map line) ++ e)) := by
  -- The line ends with a line break, with what stands at the end, or with the text.
  obtain ⟨t, ht, hhead⟩ : ∃ t, b.chars.intercalate ((r :: back).map line) ++ e = line r ++ t ∧
      ∀ c ∈ t.head?, c ∈ ['\r', '\n'] := by
    cases back with
    | nil => exact ⟨e, by simp, he.head?⟩
    | cons r' back =>
      refine ⟨b.chars ++ (b.chars.intercalate ((r' :: back).map line) ++ e), ?_,
        head?_chars_append b _⟩
      simp [List.intercalate_cons_cons]
  rw [ht]
  have hread := (recordEnc_line hr).reads (t := t) (by simp [line_ne_nil hr]) hhead
  exact (joinedEnc_intercalate b hfront hn hwidth).document_rejects b hread hother

end Writer

/-- Records that have fields are written, also if their widths differ. If they do, what
was written is rejected for good, at the place where the records before the first one
that differs end. -/
theorem parseDocument_formatDocumentWith_ragged (b : LineBreak) (trailing : Bool)
    (hfields : ∀ r ∈ d, r ≠ []) (hragged : ∃ r ∈ d, r.length ≠ (d.headD []).length) :
    ∃ text front, formatDocumentWith (String.ofList b.chars) trailing d = .ok text ∧
      formatDocumentWith (String.ofList b.chars) false (d.take (firstRagged d)) = .ok front ∧
      parseDocument (.ofString text) =
        .ok (.fail (.ofString text front.length) (.invalidInput "more fields in this record")) := by
  obtain ⟨n, r, back, hd, hfront, hwidth, hother⟩ := exists_eq_append_of_ragged hragged
  generalize d.take (firstRagged d) = front at hd hfront hwidth ⊢
  subst hd
  have hfields' : ∀ x ∈ front, x ≠ [] := fun x hx => hfields x (by simp [hx])
  have hn : 1 ≤ n := by
    obtain ⟨x, hx⟩ := List.exists_mem_of_ne_nil front hfront
    exact hwidth x hx ▸ List.length_pos_iff.mpr (hfields' x hx)
  have hr : r ≠ [] := hfields r (by simp)
  have hrejects := Writer.document_rejects b back (Writer.isEnding_trailing b trailing) hfront hn
    hwidth hr hother
  refine ⟨_, _, formatDocumentWith_eq b trailing (by simp) hfields,
    formatDocumentWith_eq b false hfront hfields', ?_⟩
  -- The text is cut where the lines of the records before `r` end.
  rw [String.length_ofList, if_neg Bool.false_ne_true, List.append_nil]
  refine parseDocument_of_rejects hrejects ?_
  rw [String.toList_ofList, List.map_append,
    Writer.intercalate_append (by simpa using hfront) (by simp)]
  simp

/-- A line feed and a comma between quotes and an empty field, then a record that is too
short, and after it one that is too long. -/
theorem parseDocument_formatDocumentWith_ragged_short :
    (∀ r ∈ [["a\n", ","], ["", "b"], ["c"], ["d", "e", "f"]], r ≠ []) ∧
      (∃ r ∈ [["a\n", ","], ["", "b"], ["c"], ["d", "e", "f"]], r.length ≠ 2) ∧
      ∃ text front,
        formatDocumentWith "\r\n" false [["a\n", ","], ["", "b"], ["c"], ["d", "e", "f"]] =
          .ok text ∧
        formatDocumentWith "\r\n" false [["a\n", ","], ["", "b"]] = .ok front ∧
        parseDocument (.ofString text) =
          .ok (.fail (.ofString text front.length) (.invalidInput "more fields in this record")) :=
  ⟨by decide, by decide,
    parseDocument_formatDocumentWith_ragged .crlf false (by decide) (by decide)⟩

end Delimited
