import Delimited.Conversion.Source
import Delimited.Proofs.Effects
import Delimited.Proofs.Encoding.Invalid
import Mathlib.Data.List.Infix

/-!
# Reading the text of a file

In either form of UTF-8 a file is read as the text whose bytes it holds, after a byte
order mark if the encoding knows one. Other files are rejected, with the place of the
first wrong sequence. Two things are peculiar to the encoding with a mark: places are
counted from after the mark, and a mark that is cut short is read as an empty text.

## Main definitions

* `Encoding.markLength`: how many bytes the byte order mark of a file takes up.
* `Encoding.FirstInvalid`: where, from its start, a file first is wrong.

## Main results

* `outcome_readText`: reading a file is decoding its bytes.
* `readText_exact`: what files in UTF-8 are read as, and where they are rejected.
* `readText_miscounts`: the place that is reported after a byte order mark.
-/

namespace Delimited

variable {path encoding : String} {e : Encoding} {bytes : List UInt8} {w : World}

/-- Reading a file is decoding its bytes, and leaves the world. -/
theorem outcome_readText (hname : Encoding.ofName? encoding = some e)
    (hread : w.files.read (.ofString path) = .ok bytes) :
    (readText path encoding).outcome w =
      (match e.decode bytes with
        | .ok text => .ok text
        | .error (.wrong error) => .error (.undecodable (.ofString path) encoding error)
        | .error .noByteOrder => .error .noByteOrder, w) := by
  have hhas := FileTree.has_of_read hread
  have hbytes : (pure bytes : Job (List UInt8)).outcome w = (.ok bytes, w) := rfl
  simp only [readText, Job.outcome_bind, Job.outcome_files, hhas, hread, hname, Bool.not_true,
    Bool.false_eq_true, if_false, Job.ofExcept, hbytes]
  cases e.decode bytes with
  | ok text => rfl
  | error failure => cases failure <;> rfl

namespace Encoding

/-- How many bytes the byte order mark at the start of a file takes up. In an encoding
without one it is a part of the text. -/
def markLength (e : Encoding) (bytes : List UInt8) : Nat :=
  if e = utf8Marked ∧ Utf8.mark <+: bytes then 3 else 0

/-- The bytes of a file, after its byte order mark, are those of a text. -/
def HoldsText (e : Encoding) (bytes : List UInt8) (text : String) : Prop :=
  bytes.drop (e.markLength bytes) = Utf8.encode text.toList

/-- A file first is wrong at `n` bytes from its start. -/
def FirstInvalid (e : Encoding) (bytes : List UInt8) (n : Nat) : Prop :=
  ∃ k, n = e.markLength bytes + k ∧ Utf8.FirstInvalid (bytes.drop (e.markLength bytes)) k

/-- A file is a byte order mark that is cut short. -/
def CutShort (e : Encoding) (bytes : List UInt8) : Prop :=
  e = utf8Marked ∧ (bytes = Utf8.mark.take 1 ∨ bytes = Utf8.mark.take 2)

theorem markLength_of_prefix (h : Utf8.mark <+: bytes) : utf8Marked.markLength bytes = 3 :=
  if_pos ⟨rfl, h⟩

theorem markLength_of_not_prefix (h : ¬ Utf8.mark <+: bytes) : e.markLength bytes = 0 :=
  if_neg fun hmark => h hmark.2

/-- A mark that is cut short is decoded as no text, though it is not the bytes of any. -/
theorem CutShort.decodeChars_eq (h : e.CutShort bytes) : e.decodeChars bytes = .ok [] := by
  rcases h with ⟨rfl, rfl | rfl⟩ <;> rfl

theorem CutShort.not_holdsText (h : e.CutShort bytes) (text : String) :
    ¬ e.HoldsText bytes text := by
  intro htext
  have hdecode := Utf8.decode_eq_ok_iff.mpr htext
  rcases h with ⟨rfl, rfl | rfl⟩ <;> cases hdecode

/-- Unless a mark is cut short, what follows the mark is decoded as UTF-8. -/
theorem decodeChars_eq_decode (he : e = utf8 ∨ e = utf8Marked) (hcut : ¬ e.CutShort bytes) :
    e.decodeChars bytes = (Utf8.decode (bytes.drop (e.markLength bytes))).mapError .wrong := by
  rcases he with rfl | rfl
  · simp [decodeChars, markLength]
  · rw [decodeChars, Utf8.decodeMarked]
    simp only [List.isPrefixOf_iff_prefix]
    by_cases hmark : Utf8.mark <+: bytes
    · rw [if_pos hmark, markLength_of_prefix hmark]
    · rw [if_neg hmark, markLength_of_not_prefix hmark, List.drop_zero]
      split
      · -- Of the parts of the mark only the empty one is left, and it is decoded as UTF-8 too.
        rename_i hshort
        have hmem := (List.mem_inits bytes Utf8.mark).mpr hshort
        simp only [Utf8.mark, List.inits, List.map_cons, List.map_nil, List.mem_cons,
          List.not_mem_nil, or_false] at hmem
        rcases hmem with rfl | rfl | rfl | rfl
        · rfl
        · exact absurd ⟨rfl, .inl rfl⟩ hcut
        · exact absurd ⟨rfl, .inr rfl⟩ hcut
        · exact absurd (List.prefix_refl _) hmark
      · rfl

end Encoding

/-- A file in UTF-8 whose bytes, after the byte order mark that is dropped, are those of
a text is read as that text. Any other file is rejected where it first is wrong, counted
from after the mark, or is a mark that is cut short, which is read as an empty text. -/
theorem readText_exact (he : e = .utf8 ∨ e = .utf8Marked)
    (hname : Encoding.ofName? encoding = some e)
    (hread : w.files.read (.ofString path) = .ok bytes) :
    (∀ text, e.HoldsText bytes text → (readText path encoding).Gives w text w) ∧
      ((∀ text, ¬ e.HoldsText bytes text) →
        (e.CutShort bytes ∧ (readText path encoding).Gives w "" w) ∨
        ∃ error,
          (readText path encoding).Fails w (.undecodable (.ofString path) encoding error) w ∧
            ∀ n, e.FirstInvalid bytes n ↔ n = e.markLength bytes + error.position) := by
  have houtcome := outcome_readText hname hread
  by_cases hcut : e.CutShort bytes
  · rw [Encoding.decode, hcut.decodeChars_eq] at houtcome
    exact ⟨fun text htext => absurd htext (hcut.not_holdsText text), fun _ => .inl ⟨hcut, houtcome⟩⟩
  · rw [Encoding.decode, Encoding.decodeChars_eq_decode he hcut] at houtcome
    constructor
    · intro text htext
      rw [Utf8.decode_eq_ok_iff.mpr htext] at houtcome
      simpa [Job.Gives, Except.map, Except.mapError] using houtcome
    · intro hnone
      have hbytes (cs : List Char) : bytes.drop (e.markLength bytes) ≠ Utf8.encode cs := by
        have hnot := hnone (String.ofList cs)
        rwa [Encoding.HoldsText, String.toList_ofList] at hnot
      obtain ⟨error, herror, hfirst⟩ := Utf8.exists_decode_eq_error hbytes
      rw [herror] at houtcome
      refine .inr ⟨error, houtcome, fun n => ?_⟩
      simp [Encoding.FirstInvalid, hfirst]

/-- The case of a file without a mark, in which a comma stands in place of the last byte
of a character. -/
theorem readText_exact_comma :
    Encoding.ofName? "utf-8-sig" = some .utf8Marked ∧
      (FileTree.mk [(["a.csv"], .file [0x61, 0xE2, 0x82, 0x2C])]).read (.ofString "a.csv") =
        .ok [0x61, 0xE2, 0x82, 0x2C] ∧
      (∀ text, ¬ Encoding.utf8Marked.HoldsText [0x61, 0xE2, 0x82, 0x2C] text) ∧
      ∃ error, error.position = 1 ∧ Encoding.utf8Marked.FirstInvalid [0x61, 0xE2, 0x82, 0x2C] 1 ∧
        (readText "a.csv" "utf-8-sig").Fails
          { files := ⟨[(["a.csv"], .file [0x61, 0xE2, 0x82, 0x2C])]⟩ }
          (.undecodable (.ofString "a.csv") "utf-8-sig" error)
          { files := ⟨[(["a.csv"], .file [0x61, 0xE2, 0x82, 0x2C])]⟩ } := by
  have hname : Encoding.ofName? "utf-8-sig" = some .utf8Marked := by decide +kernel
  have hread : (FileTree.mk [(["a.csv"], .file [0x61, 0xE2, 0x82, 0x2C])]).read
      (.ofString "a.csv") = .ok [0x61, 0xE2, 0x82, 0x2C] := by decide +kernel
  have hnone (text : String) :
      ¬ Encoding.utf8Marked.HoldsText [0x61, 0xE2, 0x82, 0x2C] text := by
    intro htext
    cases Utf8.decode_eq_ok_iff.mpr htext
  have hfirst : Encoding.utf8Marked.FirstInvalid [0x61, 0xE2, 0x82, 0x2C] 1 :=
    ⟨1, rfl, Utf8.firstInvalid_iff.mpr ⟨_, rfl, rfl⟩⟩
  rcases (readText_exact (w := { files := ⟨_⟩ }) (.inr rfl) hname hread).2 hnone with
    ⟨⟨-, hcut | hcut⟩, -⟩ | ⟨error, hfails, hplace⟩
  · cases hcut
  · cases hcut
  · have hposition := (hplace 1).mp hfirst
    rw [Encoding.markLength_of_not_prefix (by decide), Nat.zero_add] at hposition
    exact ⟨hname, hread, hnone, error, hposition.symm, hfirst, hfails⟩

/-- After a byte order mark the place that is reported is not the place in the file: the
fifth byte of this one is wrong, and the second is named. -/
theorem readText_miscounts :
    (∀ text, ¬ Encoding.utf8Marked.HoldsText [0xEF, 0xBB, 0xBF, 0x61, 0xFF] text) ∧
      Encoding.utf8Marked.FirstInvalid [0xEF, 0xBB, 0xBF, 0x61, 0xFF] 4 ∧
      (readText "a.csv" "utf-8-sig").Fails
        { files := ⟨[(["a.csv"], .file [0xEF, 0xBB, 0xBF, 0x61, 0xFF])]⟩ }
        (.undecodable (.ofString "a.csv") "utf-8-sig" ⟨1, [0xFF], .invalidStart⟩)
        { files := ⟨[(["a.csv"], .file [0xEF, 0xBB, 0xBF, 0x61, 0xFF])]⟩ } ∧
      ¬ Encoding.utf8Marked.FirstInvalid [0xEF, 0xBB, 0xBF, 0x61, 0xFF] 1 := by
  have hname : Encoding.ofName? "utf-8-sig" = some .utf8Marked := by decide +kernel
  have hread : (FileTree.mk [(["a.csv"], .file [0xEF, 0xBB, 0xBF, 0x61, 0xFF])]).read
      (.ofString "a.csv") = .ok [0xEF, 0xBB, 0xBF, 0x61, 0xFF] := by decide +kernel
  have hlength : Encoding.utf8Marked.markLength [0xEF, 0xBB, 0xBF, 0x61, 0xFF] = 3 :=
    Encoding.markLength_of_prefix (by decide)
  refine ⟨?_, ?_, outcome_readText (w := { files := ⟨_⟩ }) hname hread, ?_⟩
  · intro text htext
    cases Utf8.decode_eq_ok_iff.mpr htext
  · exact ⟨1, by rw [hlength], Utf8.firstInvalid_iff.mpr ⟨_, rfl, rfl⟩⟩
  · rintro ⟨k, hk, -⟩
    rw [hlength] at hk
    omega

end Delimited
