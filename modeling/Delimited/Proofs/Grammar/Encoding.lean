import Delimited.Writer

/-!
# Encodings of documents

The grammar as a relation between texts and what they stand for, said without
reference to any way of reading. It fixes what the written rules leave open: all
records have one width, and the text of the last record and its line break are
not both empty, so that a line break at the end of a text starts no record.

## Main definitions

* `Grammar.FieldEnc s v`: the text `s` encodes the field `v`.
* `Grammar.RecordEnc s r`: the text `s` encodes the record `r`.
* `Grammar.DocEnc t d`: the text `t` encodes the document `d`.
-/

namespace Delimited.Grammar

/-- A field is encoded by itself, unless it holds a special character, and by
its text between quotes, with every quote doubled. -/
inductive FieldEnc : List Char → String → Prop where
  /-- The field as it is. -/
  | bare {v : String} (h : ∀ c ∈ v.toList, c ∉ [',', '"', '\r', '\n']) : FieldEnc v.toList v
  /-- The field between quotes. -/
  | quoted (v : String) : FieldEnc ('"' :: Writer.doubled v.toList ++ ['"']) v

/-- A record is encoded by the encodings of its fields, of which there is at
least one, with commas between them. -/
inductive RecordEnc : List Char → Record → Prop where
  /-- The last field. -/
  | single {s : List Char} {v : String} (h : FieldEnc s v) : RecordEnc s [v]
  /-- A field, a comma, and the fields after it. -/
  | cons {s t : List Char} {v : String} {r : Record} (h : FieldEnc s v)
      (others : RecordEnc t r) : RecordEnc (s ++ ',' :: t) (v :: r)

/-- Records of width `n` are encoded by their encodings with line breaks between
them. One more may follow the last, and does when its text is empty. -/
inductive LinesEnc (n : Nat) : List Char → Document → Prop where
  /-- The last record, and a line break or none. -/
  | last {s e : List Char} {r : Record} (h : RecordEnc s r) (width : r.length = n)
      (ending : e = [] ∨ ∃ b : LineBreak, e = b.chars) (nonempty : s ≠ [] ∨ e ≠ []) :
      LinesEnc n (s ++ e) [r]
  /-- A record, a line break, and the records after it. -/
  | cons {s t : List Char} {r : Record} {d : Document} (h : RecordEnc s r)
      (width : r.length = n) (b : LineBreak) (others : LinesEnc n t d) :
      LinesEnc n (s ++ b.chars ++ t) (r :: d)

/-- A document is encoded by records of one width. -/
def DocEnc (t : List Char) (d : Document) : Prop := ∃ n, LinesEnc n t d

variable {s t : List Char} {r : Record} {d : Document} {n : Nat}

theorem LinesEnc.document_ne_nil (h : LinesEnc n t d) : d ≠ [] := by
  cases h <;> simp

/-- All records of an encoded document have the width of the encoding. -/
theorem LinesEnc.width_eq (h : LinesEnc n t d) : ∀ r ∈ d, r.length = n := by
  induction h with
  | last _ width _ _ => simpa using width
  | cons _ width _ _ ih => simpa [width] using ih

theorem RecordEnc.record_ne_nil (h : RecordEnc s r) : r ≠ [] := by
  cases h <;> simp

theorem LinesEnc.one_le_width (h : LinesEnc n t d) : 1 ≤ n := by
  cases h with
  | last henc width _ _ => exact width ▸ List.length_pos_iff.mpr henc.record_ne_nil
  | cons henc width _ _ => exact width ▸ List.length_pos_iff.mpr henc.record_ne_nil

theorem LinesEnc.text_ne_nil (h : LinesEnc n t d) : t ≠ [] := by
  cases h with
  | last _ _ _ nonempty =>
    rw [ne_eq, List.append_eq_nil_iff, Decidable.not_and_iff_not_or_not]
    exact nonempty
  | cons _ _ b _ => cases b <;> simp [LineBreak.chars]

end Delimited.Grammar
