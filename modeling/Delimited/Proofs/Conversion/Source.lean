import Delimited.Conversion.Source
import Delimited.Proofs.FileTree
import Delimited.Proofs.Grammar.Document
import Delimited.Proofs.Job

/-!
# Reading sources

Reading the records of a file succeeds when the file is there, its bytes have a
text in the encoding, and the text is a document. It changes no files, and what it
gives are records of one width, at least one of them and none without fields.

## Main results

* `gives_parseFile`: a file with the bytes of a document is read as that document.
* `isQuery_parseFile`: reading a file changes nothing.
* `Job.Gives.exists_parseDocument`, `exists_width_of_parseDocument`: the shape of
  what was read.
-/

namespace Delimited

variable {path encoding text : String} {bytes : List UInt8} {e : Encoding} {v : View}
  {d : Document} {w w' : World}

theorem parseText_eq_ok_iff {source : Option String} :
    parseText text source = .ok d ↔
      ∃ v, parseDocument (.ofString text) = .ok (.success v d) := by
  unfold parseText
  split <;> simp_all

/-- The records of a document are of one width, which is not zero. -/
theorem exists_width_of_parseDocument (h : parseDocument (.ofString text) = .ok (.success v d)) :
    d ≠ [] ∧ ∃ n, 1 ≤ n ∧ ∀ r ∈ d, r.length = n := by
  rw [View.ofString_zero] at h
  obtain ⟨-, n, hlines⟩ := Grammar.docEnc_of_success h
  exact ⟨hlines.document_ne_nil, n, hlines.one_le_width, hlines.width_eq⟩

/-- A file of bytes that are a document in an encoding is read as that document. -/
theorem gives_parseFile (hfile : w.files.stat? (.ofString path) = some (.file bytes))
    (hencoding : Encoding.ofName? encoding = some e) (hdecode : e.decode bytes = .ok text)
    (hparse : parseDocument (.ofString text) = .ok (.success v d)) :
    ∃ w', (parseFile path encoding).Gives w d w' ∧ w'.files = w.files := by
  have hread : (readText path encoding).Gives w text w := by
    simp [readText, FileTree.has_of_stat? hfile, FileTree.read_of_stat? hfile, hencoding, hdecode]
  have htext : parseText text (some path) = .ok d := parseText_eq_ok_iff.mpr ⟨v, hparse⟩
  simp only [parseFile, Job.gives_bind_iff, Job.gives_ofExcept_iff, Job.info, Job.report,
    Job.gives_modify_iff, Job.gives_pure_iff]
  exact ⟨_, ⟨text, w, hread, d, w, ⟨htext, rfl⟩, (), _, rfl, rfl, rfl⟩, rfl⟩

theorem isQuery_readText (path encoding : String) : (readText path encoding).IsQuery := by
  refine Job.isQuery_files.bind fun files => ?_
  cases hhas : files.has (.ofString path) with
  | false => exact Job.isQuery_throw_bind _ _
  | true =>
    refine Job.isQuery_files.bind fun files => (Job.isQuery_ofExcept _ _).bind fun bytes => ?_
    split
    · exact Job.isQuery_throw _
    · split
      · exact Job.isQuery_pure _
      · exact Job.isQuery_throw _
      · exact Job.isQuery_throw _

theorem isQuery_parseFile (path encoding : String) : (parseFile path encoding).IsQuery :=
  (isQuery_readText path encoding).bind fun _ => (Job.isQuery_ofExcept _ _).bind fun _ =>
    (Job.isQuery_info _ _).bind fun _ => Job.isQuery_pure _

/-- What a file is read as is a document. -/
theorem Job.Gives.exists_parseDocument (h : (parseFile path encoding).Gives w d w') :
    ∃ text v, parseDocument (.ofString text) = .ok (.success v d) := by
  simp only [parseFile, Job.gives_bind_iff, Job.gives_ofExcept_iff, Job.gives_pure_iff] at h
  obtain ⟨text, _, -, _, _, ⟨htext, -⟩, _, _, -, rfl, -⟩ := h
  exact ⟨text, parseText_eq_ok_iff.mp htext⟩

end Delimited
