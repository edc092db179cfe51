import Delimited.Proofs.View
import Mathlib.Data.List.Induction
import Mathlib.Data.List.Infix
import Mathlib.Data.Prod.Lex
import Mathlib.Order.Interval.Set.Defs

/-!
# Lines and columns

The lines of a text are what its line feeds separate, so the last line is the one
that no line feed ends. A place in a text is one of its lines and a column of that
line; its offset is the length of the lines before it and of what stands before it
on its own line. Places are ordered as they are read, and offsets follow that order.
Since the location of a view is the place at its offset, line and column say exactly
where the view stands.

## Main definitions

* `View.lines`: the lines of a text.
* `View.firstLines`: the first lines of a text with the line feeds that end them.
* `View.Place`: a line and a column of it, with its offset and its coordinates.

## Main results

* `View.exists_lines_append`: the lines of a text, seen from a view over it.
* `View.Place.strictMono_offset`: a later place has a larger offset.
* `View.exists_place`: the location of a view is the place at its offset.
* `View.location_exact`: offsets and locations determine each other, in order.
-/

namespace Delimited.View

/-- The lines of a text, without the line feeds between them. -/
def lines (text : List Char) : List (List Char) := text.splitOn '\n'

/-- The first `n` lines of a text, each with the line feed that ends it. -/
def firstLines (text : List Char) (n : Nat) : List Char :=
  ((lines text).take n).flatMap (· ++ ['\n'])

/-- A line of a text and a column of that line, both from zero. The last column of a
line is the one after its last character. -/
@[ext]
structure Place (text : List Char) where
  /-- The line. -/
  line : Fin (lines text).length
  /-- The column. -/
  column : Nat
  /-- The line reaches to the column. -/
  column_le : column ≤ (lines text)[line].length

namespace Place

variable {text : List Char} {p q : Place text}

/-- The length of the lines before a place, with their line feeds, and of what stands
before it on its own line. -/
def offset (p : Place text) : Nat := (firstLines text p.line).length + p.column

/-- Line and column, both from one. -/
def coordinates (p : Place text) : Int × Int := (p.line + 1, p.column + 1)

theorem toLex_coordinates_injective :
    Function.Injective fun p : Place text => toLex p.coordinates := by
  intro p q h
  have hpair : p.coordinates = q.coordinates := toLex.injective h
  simp only [coordinates, Prod.mk.injEq] at hpair
  apply Place.ext
  · apply Fin.ext
    omega
  · omega

/-- Places are ordered as they are read: by their lines, and on one line by their columns. -/
instance : LinearOrder (Place text) :=
  LinearOrder.lift' (fun p => toLex p.coordinates) toLex_coordinates_injective

theorem lt_iff_coordinates : p < q ↔ toLex p.coordinates < toLex q.coordinates := Iff.rfl

theorem lt_iff : p < q ↔ p.line < q.line ∨ p.line = q.line ∧ p.column < q.column := by
  rw [lt_iff_coordinates, Prod.Lex.toLex_lt_toLex, Fin.lt_def, Fin.ext_iff]
  simp only [coordinates]
  omega

end Place

variable {text : List Char}

/-! ### The lines of a text -/

theorem lines_lf (cs : List Char) : lines ('\n' :: cs) = [] :: lines cs := by
  simp [lines, List.splitOn_cons_eq_if_modifyHead]

theorem lines_cons {c : Char} (h : c ≠ '\n') (cs : List Char) :
    lines (c :: cs) = (lines cs).modifyHead (c :: ·) := by
  simp [lines, List.splitOn_cons_eq_if_modifyHead, h]

theorem modifyHead_nil_append (ls : List (List Char)) : ls.modifyHead ([] ++ ·) = ls := by
  cases ls <;> rfl

/-- What is behind a view consists of whole lines, as many as there are line feeds, and
of the beginning of the line that goes on ahead of the view. -/
theorem exists_lines_append (before : List Char) :
    ∃ whole, whole.length = before.count '\n' ∧
      whole.flatMap (· ++ ['\n']) ++ lastLine before = before ∧
      ∀ rest, lines (before ++ rest) =
        whole ++ (lines rest).modifyHead (lastLine before ++ ·) := by
  -- The view moves on by one character, from `before` to `before ++ [c]`.
  induction before using List.reverseRecOn with
  | nil => exact ⟨[], rfl, rfl, fun rest => (modifyHead_nil_append (lines rest)).symm⟩
  | append_singleton before c ih =>
    obtain ⟨whole, hcount, hbefore, hlines⟩ := ih
    by_cases hc : c = '\n'
    · subst hc
      refine ⟨whole ++ [lastLine before], ?_, ?_, fun rest => ?_⟩
      · simp [hcount]
      · simp [lastLine_lf, ← List.append_assoc, hbefore]
      · rw [lastLine_lf, modifyHead_nil_append, List.append_assoc, List.singleton_append, hlines,
          lines_lf]
        simp
    · refine ⟨whole, ?_, ?_, fun rest => ?_⟩
      · simp [hcount, hc]
      · rw [lastLine_append before hc, ← List.append_assoc, hbefore]
      · rw [List.append_assoc, List.singleton_append, hlines, lines_cons hc,
          lastLine_append before hc, List.modifyHead_modifyHead]
        simp [Function.comp_def]

/-- All lines with a line feed each are the text with a line feed more. -/
theorem firstLines_length_lines : firstLines text (lines text).length = text ++ ['\n'] := by
  obtain ⟨whole, -, htext, hlines⟩ := exists_lines_append text
  have hall : lines text = whole ++ [lastLine text] := by
    simpa [lines] using hlines []
  calc firstLines text (lines text).length
    _ = (lines text).flatMap (· ++ ['\n']) := by rw [firstLines, List.take_length]
    _ = whole.flatMap (· ++ ['\n']) ++ lastLine text ++ ['\n'] := by simp [hall]
    _ = text ++ ['\n'] := by rw [htext]

/-- A line ends before every later line begins. -/
theorem length_firstLines_add_lt {i j : Nat} (hi : i < (lines text).length) (hij : i < j) :
    (firstLines text i).length + (lines text)[i].length < (firstLines text j).length := by
  have hnext : firstLines text (i + 1) = firstLines text i ++ ((lines text)[i] ++ ['\n']) := by
    rw [firstLines, List.take_succ_eq_append_getElem hi, List.flatMap_append,
      List.flatMap_singleton, firstLines]
  have hle : (firstLines text (i + 1)).length ≤ (firstLines text j).length :=
    (List.IsPrefix.flatMap (List.take_prefix_take_left hij) _).length_le
  rw [hnext] at hle
  simp only [List.length_append, List.length_singleton] at hle
  omega

/-! ### Places and offsets -/

namespace Place

/-- A place comes before every later line begins. -/
theorem offset_lt_length_firstLines (p : Place text) {j : Nat} (h : p.line < j) :
    p.offset < (firstLines text j).length := by
  have hp := p.column_le
  have hline := length_firstLines_add_lt p.line.isLt h
  simp only [offset, Fin.getElem_fin] at hp ⊢
  omega

/-- A later place has a larger offset. -/
theorem strictMono_offset : StrictMono (offset : Place text → Nat) := by
  intro p q h
  rcases lt_iff.mp h with hline | ⟨hline, hcolumn⟩
  · exact (p.offset_lt_length_firstLines hline).trans_le (Nat.le_add_right _ _)
  · simp only [offset, hline]
    omega

theorem offset_le (p : Place text) : p.offset ≤ text.length := by
  -- A line after the last one would begin right after a line feed more.
  have hend := p.offset_lt_length_firstLines p.line.isLt
  rw [firstLines_length_lines, List.length_append, List.length_singleton] at hend
  omega

end Place

/-- The place where a view stands: as many lines are behind it as line feeds, and it is
as far on its line as the line has come. -/
theorem exists_place_between (before rest : List Char) :
    ∃ p : Place (before ++ rest), p.offset = before.length ∧
      p.line = before.count '\n' ∧ (between before rest).location = p.coordinates := by
  obtain ⟨whole, hcount, hbefore, hlines⟩ := exists_lines_append before
  obtain ⟨line, later, hrest⟩ := List.exists_cons_of_ne_nil (List.splitOn_ne_nil '\n' rest)
  have hall : lines (before ++ rest) = whole ++ (lastLine before ++ line) :: later := by
    rw [hlines, lines, hrest]
    rfl
  have hlt : before.count '\n' < (lines (before ++ rest)).length := by
    simp [hall, hcount]
  have hget : (lines (before ++ rest))[before.count '\n'] = lastLine before ++ line := by
    simp [hall, ← hcount]
  refine ⟨⟨⟨before.count '\n', hlt⟩, (lastLine before).length, ?_⟩, ?_, rfl, ?_⟩
  · simp [hget]
  · have hfirst : firstLines (before ++ rest) (before.count '\n') ++ lastLine before = before := by
      rw [firstLines, hall, ← hcount, List.take_left, hbefore]
    rw [Place.offset, ← List.length_append, hfirst]
  · exact location_between

/-- The location of a view is the place at its offset. -/
theorem exists_place {o : Nat} (ho : o ≤ text.length) :
    ∃ p : Place text, p.offset = o ∧ p.line = (text.take o).count '\n' ∧
      (View.mk text.toArray o).location = p.coordinates := by
  obtain ⟨before, rest, rfl, rfl⟩ : ∃ before rest, before ++ rest = text ∧ before.length = o :=
    ⟨text.take o, text.drop o, List.take_append_drop o text, List.length_take_of_le ho⟩
  obtain ⟨p, hoffset, hline, hlocation⟩ := exists_place_between before rest
  exact ⟨p, hoffset, by rwa [List.take_left], hlocation⟩

/-- At the offset of a place the location is that place. -/
theorem location_offset (p : Place text) :
    (View.mk text.toArray p.offset).location = p.coordinates := by
  obtain ⟨q, hoffset, -, hlocation⟩ := exists_place p.offset_le
  rw [hlocation, Place.strictMono_offset.injective hoffset]

/-- Offsets and locations determine each other. The location of an offset within a text
is a place there, on the line that as many line feeds precede, with the offset for its
own. Every place is the location of its offset. Different offsets have different
locations, and of two offsets the smaller one has the location that comes first. -/
theorem location_exact (text : String) :
    (∀ o ≤ text.length, ∃ p : Place text.toList,
      (ofString text o).location = p.coordinates ∧
        p.line = (text.toList.take o).count '\n' ∧ p.offset = o) ∧
    (∀ p : Place text.toList,
      p.offset ≤ text.length ∧ (ofString text p.offset).location = p.coordinates) ∧
    Set.InjOn (fun o : Nat => (ofString text o).location) (Set.Iic text.length) ∧
    ∀ o₁ o₂ : Nat, o₁ < o₂ → o₂ ≤ text.length →
      toLex (ofString text o₁).location < toLex (ofString text o₂).location := by
  have hplace : ∀ o ≤ text.length, ∃ p : Place text.toList, p.offset = o ∧
      p.line = (text.toList.take o).count '\n' ∧ (ofString text o).location = p.coordinates :=
    fun o ho => exists_place (by rwa [String.length_toList])
  refine ⟨fun o ho => ?_, fun p => ⟨?_, location_offset p⟩, fun o₁ h₁ o₂ h₂ heq => ?_,
    fun o₁ o₂ hlt h₂ => ?_⟩
  · obtain ⟨p, hoffset, hline, hlocation⟩ := hplace o ho
    exact ⟨p, hlocation, hline, hoffset⟩
  · rw [← String.length_toList]
    exact p.offset_le
  · obtain ⟨p, rfl, -, hp⟩ := hplace o₁ h₁
    obtain ⟨q, rfl, -, hq⟩ := hplace o₂ h₂
    have hcoordinates : p.coordinates = q.coordinates := hp.symm.trans (heq.trans hq)
    have hpq : p = q := Place.toLex_coordinates_injective (congrArg toLex hcoordinates)
    rw [hpq]
  · obtain ⟨p, rfl, -, hp⟩ := hplace o₁ (hlt.le.trans h₂)
    obtain ⟨q, rfl, -, hq⟩ := hplace o₂ h₂
    rw [hp, hq, ← Place.lt_iff_coordinates]
    exact Place.strictMono_offset.lt_iff_lt.mp hlt

/-- On the line feed of an empty line, and right after it. -/
theorem location_exact_emptyLine :
    2 ≤ "a\n\nb".length ∧ 3 ≤ "a\n\nb".length ∧
      (∃ p : Place "a\n\nb".toList, (ofString "a\n\nb" 2).location = p.coordinates ∧
        p.line = ("a\n\nb".toList.take 2).count '\n' ∧ p.offset = 2) ∧
      (ofString "a\n\nb" 2).location ≠ (ofString "a\n\nb" 3).location ∧
      toLex (ofString "a\n\nb" 2).location < toLex (ofString "a\n\nb" 3).location := by
  have h₂ : 2 ≤ "a\n\nb".length := by decide
  have h₃ : 3 ≤ "a\n\nb".length := by decide
  obtain ⟨hplace, -, hinj, hmono⟩ := location_exact "a\n\nb"
  refine ⟨h₂, h₃, hplace 2 h₂, fun heq => ?_, hmono 2 3 (by decide) h₃⟩
  exact absurd (hinj h₂ h₃ heq) (by decide)

end Delimited.View
