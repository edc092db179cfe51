import Delimited.Proofs.Grammar.Field

/-!
# Reading a record

The repetition behind a field takes turns of a comma and a field. Since a field
is never rejected, the turns end only where no comma stands.

## Main results

* `Grammar.record_rejects_nil`: an empty text is rejected, and may be recovered from.
* `Grammar.exists_reads_record`: any other text begins with a record, which is
  read up to where no comma follows.
* `Grammar.RecordEnc.reads`: an encoding is read where a line break or nothing
  follows it.
-/

namespace Delimited.Grammar

open Delimited.Parser

variable {s t l : List Char} {v : String} {r : Record}

theorem others_rejects (h : ',' ∉ l.head?) :
    ∃ c : Code, c.isHard = false ∧ (comma.right field).run.Rejects [] c l := by
  cases l with
  | nil => exact ⟨.endOfInput, rfl, (char_rejects_nil ',').pair.map Prod.snd⟩
  | cons d l =>
    have hd : d ≠ ',' := by simpa [eq_comm] using h
    exact ⟨.char ",", rfl, (char_rejects_cons hd).pair.map Prod.snd⟩

theorem reads_other (h : field.run.Reads s v t) :
    (comma.right field).run.Reads (',' :: s) v t :=
  ((reads_char ',' (s ++ t)).pair h).map Prod.snd

/-- Behind a field, the fields after commas are read, up to where no comma
stands, and make an encoding of a record with any field before them. -/
theorem exists_reads_others (l : List Char) :
    ∃ s vs t, l = s ++ t ∧ ',' ∉ t.head? ∧ (comma.right field).many.run.Reads s vs t ∧
      ∀ e v, FieldEnc e v → RecordEnc (e ++ s) (v :: vs) := by
  generalize hn : l.length = n
  -- The induction is on the length, since a turn reads as much as its field takes.
  induction n using Nat.strongRecOn generalizing l with
  | _ n ih =>
    by_cases hcomma : ',' ∈ l.head?
    · obtain ⟨l, rfl⟩ := List.head?_eq_some_iff.mp hcomma
      obtain ⟨e, v, l', rfl, henc, hfield⟩ := exists_reads_field l
      have hshorter : l'.length < n := by
        rw [← hn, List.length_cons, List.length_append]
        omega
      obtain ⟨s, vs, t, rfl, ht, hmany, hrecord⟩ := ih _ hshorter l' rfl
      refine ⟨',' :: e ++ s, v :: vs, t, by simp, ht, ?_, ?_⟩
      · exact (reads_other hfield).many_cons (by simp) hmany
      · intro e' v' h'
        simpa using RecordEnc.cons h' (hrecord e v henc)
    · obtain ⟨c, hc, hrejects⟩ := others_rejects hcomma
      refine ⟨[], [], l, rfl, hcomma, hrejects.many_nil hc, ?_⟩
      intro e v h
      simpa using RecordEnc.single h

theorem reads_fields {e : List Char} {vs : List String} (h : field.run.Reads e v (s ++ t))
    (hmany : (comma.right field).many.run.Reads s vs t) :
    fields.run.Reads (e ++ s) (v :: vs) t :=
  (h.pair hmany).map _

/-! ### Records -/

theorem record_rejects_nil : record.run.Rejects [] .noInput [] := by
  intro before
  simp [record]

/-- A text that is not empty is read as fields. -/
theorem record_eq (hl : l ≠ []) (before : List Char) :
    record.run (.between before l) = fields.run (.between before l) := by
  simp only [record, run_leaf, View.nonempty_between hl]

theorem reads_record (h : fields.run.Reads s r t) (hne : s ++ t ≠ []) :
    record.run.Reads s r t := by
  intro before
  rw [record_eq hne]
  exact h before

theorem exists_reads_record (hl : l ≠ []) :
    ∃ s r t, l = s ++ t ∧ RecordEnc s r ∧ ',' ∉ t.head? ∧ record.run.Reads s r t := by
  obtain ⟨e, v, l, rfl, henc, hfield⟩ := exists_reads_field l
  obtain ⟨s, vs, t, rfl, ht, hmany, hrecord⟩ := exists_reads_others l
  refine ⟨e ++ s, v :: vs, t, by simp, hrecord e v henc, ht, ?_⟩
  exact reads_record (reads_fields hfield hmany) (by simpa using hl)

/-- An encoding of a record is read, first its first field and then the others. -/
theorem RecordEnc.reads_fields (h : RecordEnc s r) (ht : ∀ c ∈ t.head?, c ∈ ['\r', '\n']) :
    ∃ e s' v vs, s = e ++ s' ∧ r = v :: vs ∧ field.run.Reads e v (s' ++ t) ∧
      (comma.right field).many.run.Reads s' vs t := by
  -- In the second case the first field of the others becomes one more turn.
  induction h with
  | @single s v henc =>
    have hcomma : ',' ∉ t.head? := fun hc => by simpa using ht _ hc
    obtain ⟨c, hc, hrejects⟩ := others_rejects hcomma
    refine ⟨s, [], v, [], by simp, rfl, ?_, hrejects.many_nil hc⟩
    exact henc.reads fun c hc => List.mem_cons_of_mem _ (ht c hc)
  | @cons s _ v _ henc _ ih =>
    obtain ⟨e, s', v', vs, rfl, rfl, hfield, hmany⟩ := ih
    refine ⟨s, ',' :: (e ++ s'), v, v' :: vs, rfl, rfl, ?_, ?_⟩
    · exact henc.reads (by simp)
    · exact (reads_other hfield).many_cons (by simp) hmany

/-- An encoding of a record is read where a line break or nothing follows, unless
there is nothing at all. -/
theorem RecordEnc.reads (h : RecordEnc s r) (hne : s ++ t ≠ [])
    (ht : ∀ c ∈ t.head?, c ∈ ['\r', '\n']) : record.run.Reads s r t := by
  obtain ⟨e, s', v, vs, rfl, rfl, hfield, hmany⟩ := h.reads_fields ht
  exact reads_record (Grammar.reads_fields hfield hmany) hne

end Delimited.Grammar
