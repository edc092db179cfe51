import Delimited.Proofs.Table.Reader

/-!
# Number columns that stay

A column of integers is written out in digits and read again as the same integers:
no digits are filled up with zeros, none are too many for an integer, and nothing
stands around them. A column that was kept as it is stays as it is for the same
reason. So typing the texts of a typed column, if it holds no doubles, changes
nothing.

## Main definitions

* `Cells.HoldsInteger`: a cell that is an integer.
* `Column.asTexts`: a column with its cells as texts.

## Main results

* `Cells.exists_infer_eq_some_iff`: which columns become columns of numbers.
* `Cells.infer_eq_integer_iff`: which of them become columns of integers.
* `Cells.eq_map_of_infer`: the doubles of the other ones.
* `Cells.infer_map_toString`: a column of integers is found again.
* `Column.infer_asTexts_infer`: a typed column without doubles is found again.
-/

namespace Delimited

variable {read : NumberReader}

/-! ### Lists of answers -/

theorem mapM_eq_some_iff {α β : Type} {f : α → Option β} {l : List α} {l' : List β} :
    l.mapM f = some l' ↔ List.Forall₂ (fun a b => f a = some b) l l' := by
  induction l generalizing l' with
  | nil => simp [eq_comm]
  | cons a l ih =>
    rw [List.mapM_cons, List.forall₂_cons_left_iff]
    simp only [Option.bind_eq_bind, Option.bind_eq_some_iff, Option.pure_def, Option.some.injEq, ih]
    grind

theorem mapM_bind_eq_some_iff {α β γ : Type} {f : α → Option β} {g : β → Option γ} {l : List α}
    {l' : List γ} :
    (l.mapM fun a => (f a).bind g) = some l' ↔ ∃ m, l.mapM f = some m ∧ m.mapM g = some l' := by
  induction l generalizing l' with
  | nil => simp
  | cons a l ih =>
    simp only [List.mapM_cons, Option.bind_eq_bind, Option.bind_eq_some_iff, Option.pure_def,
      Option.some.injEq, ih]
    constructor
    · rintro ⟨c, ⟨b, hb, hc⟩, cs, ⟨bs, hbs, hcs⟩, rfl⟩
      exact ⟨b :: bs, ⟨b, hb, bs, hbs, rfl⟩, by simp [hc, hcs]⟩
    · rintro ⟨_, ⟨b, hb, bs, hbs, rfl⟩, h⟩
      simp only [List.mapM_cons, Option.bind_eq_bind, Option.bind_eq_some_iff, Option.pure_def,
        Option.some.injEq] at h
      obtain ⟨c, hc, cs, hcs, rfl⟩ := h
      exact ⟨c, ⟨b, hb, hc⟩, cs, ⟨bs, hbs, hcs⟩, rfl⟩

theorem exists_forall₂_iff {α β : Type} {R : α → β → Prop} {l : List α} :
    (∃ l', List.Forall₂ R l l') ↔ ∀ a ∈ l, ∃ b, R a b := by
  induction l with
  | nil => simp
  | cons a l ih =>
    rw [List.forall_mem_cons, ← ih]
    constructor
    · rintro ⟨_, hcells⟩
      obtain ⟨b, l', hb, hl', -⟩ := List.forall₂_cons_left_iff.mp hcells
      exact ⟨⟨b, hb⟩, l', hl'⟩
    · rintro ⟨⟨b, hb⟩, l', hl'⟩
      exact ⟨b :: l', .cons hb hl'⟩

theorem exists_mapM_eq_some_iff {α β : Type} {f : α → Option β} {l : List α} :
    (∃ l', l.mapM f = some l') ↔ ∀ a ∈ l, ∃ b, f a = some b := by
  simp only [mapM_eq_some_iff, exists_forall₂_iff]

/-! ### Columns -/

namespace Cells

variable {texts : List String} {integers : List Int} {numbers : List (Option Double)}

/-- A column of texts becomes one of integers or of doubles, if it changes. -/
theorem eq_integer_or_real_of_infer {cells : Cells} (h : infer read texts = some cells) :
    (∃ integers, cells = .integer integers) ∨ ∃ numbers, cells = .real numbers := by
  simp only [infer] at h
  split at h
  · cases h
  · obtain ⟨numbers, -, rfl⟩ := Option.map_eq_some_iff.mp h
    split
    · split
      · exact .inl ⟨_, rfl⟩
      · exact .inr ⟨_, rfl⟩
    · exact .inr ⟨_, rfl⟩

/-- A column is converted when some text is not blank, and every one that is not blank is
read as a number and is no code. -/
theorem exists_infer_eq_some_iff :
    (∃ cells, infer read texts = some cells) ↔
      (∃ s ∈ texts, Text.stripChars s.toList ≠ []) ∧
        ∀ s ∈ texts, Text.stripChars s.toList ≠ [] →
          isCode (Text.stripChars s.toList) = false ∧
            ∃ x, read (Text.stripChars s.toList) = some x := by
  have hpresent (cs : List Char) :
      cs ∈ (texts.map fun s => Text.stripChars s.toList).filter (· ≠ []) ↔
        (∃ s ∈ texts, Text.stripChars s.toList = cs) ∧ cs ≠ [] := by simp
  simp only [infer]
  generalize (texts.map fun s => Text.stripChars s.toList).filter (· ≠ []) = present at hpresent ⊢
  constructor
  · rintro ⟨cells, h⟩
    split at h
    · cases h
    · rename_i hdecided
      obtain ⟨hne, hcode⟩ := not_or.mp hdecided
      obtain ⟨numbers, hnumbers, -⟩ := Option.map_eq_some_iff.mp h
      refine ⟨?_, fun s hs hblank => ?_⟩
      · obtain ⟨cs, hcs⟩ := List.exists_mem_of_ne_nil present hne
        obtain ⟨⟨s, hs, rfl⟩, hblank⟩ := (hpresent cs).mp hcs
        exact ⟨s, hs, hblank⟩
      · have hmem := (hpresent _).mpr ⟨⟨s, hs, rfl⟩, hblank⟩
        obtain ⟨x, hx⟩ := exists_mapM_eq_some_iff.mp ⟨numbers, hnumbers⟩ _ hmem
        refine ⟨?_, x, (NumberReader.cell_eq_some_iff.mp hx).2⟩
        rw [Bool.not_eq_true, List.any_eq_false] at hcode
        simpa using hcode _ hmem
  · rintro ⟨⟨s, hs, hblank⟩, hplain⟩
    have hcells : ∀ cs ∈ present, isCode cs = false ∧ ∃ x, read.cell cs = some x := by
      intro cs hcs
      obtain ⟨⟨s, hs, rfl⟩, hblank⟩ := (hpresent cs).mp hcs
      rw [NumberReader.cell_of_ne_nil hblank]
      exact hplain s hs hblank
    have hne : present ≠ [] := List.ne_nil_of_mem ((hpresent _).mpr ⟨⟨s, hs, rfl⟩, hblank⟩)
    have hcode : ¬ present.any isCode = true := by
      rw [Bool.not_eq_true, List.any_eq_false]
      exact fun cs hcs => by simp [(hcells cs hcs).1]
    obtain ⟨numbers, hnumbers⟩ := exists_mapM_eq_some_iff.mpr fun cs hcs => (hcells cs hcs).2
    rw [if_neg (not_or.mpr ⟨hne, hcode⟩), hnumbers]
    exact ⟨_, rfl⟩

/-- A column of doubles has the double of each text that is not blank. -/
theorem eq_map_of_infer (h : infer read texts = some (.real numbers)) :
    numbers = texts.map fun s =>
      (read.cell (Text.stripChars s.toList)).map Number.double := by
  simp only [infer] at h
  split at h
  · cases h
  · obtain ⟨_, -, h⟩ := Option.map_eq_some_iff.mp h
    split at h
    · split at h
      · cases h
      · cases h
        simp
    · cases h
      simp

/-- The text is an integer, blanks around it apart, and is not a code. -/
def HoldsInteger (read : NumberReader) (s : String) (z : Int) : Prop :=
  isCode (Text.stripChars s.toList) = false ∧
    (read.cell (Text.stripChars s.toList)).bind Number.integer? = some z

theorem forall₂_holdsInteger_iff :
    List.Forall₂ (HoldsInteger read) texts integers ↔
      (∀ cs ∈ texts.map fun s => Text.stripChars s.toList, isCode cs = false) ∧
        ∃ numbers, (texts.map fun s => Text.stripChars s.toList).mapM read.cell =
          some numbers ∧ numbers.mapM Number.integer? = some integers := by
  rw [← mapM_bind_eq_some_iff, mapM_eq_some_iff, List.forall₂_map_left_iff, List.forall_mem_map,
    ← List.forall₂_and_left]
  rfl

/-- A cell that is a number is not blank. -/
theorem filter_ne_nil_of_mapM_eq_some {cells : List (List Char)} {numbers : List Number}
    (h : cells.mapM read.cell = some numbers) : cells.filter (· ≠ []) = cells := by
  rw [mapM_eq_some_iff] at h
  induction h with
  | nil => rfl
  | cons hcell _ ih =>
    rw [List.filter_cons_of_pos, ih]
    simp only [ne_eq, decide_not, Bool.not_eq_eq_eq_not, Bool.not_true, decide_eq_false_iff_not]
    rintro rfl
    cases hcell

/-- A column becomes one of integers when it has cells and each holds an integer. -/
theorem infer_eq_integer_iff :
    infer read texts = some (.integer integers) ↔
      texts ≠ [] ∧ List.Forall₂ (HoldsInteger read) texts integers := by
  have hempty : texts ≠ [] ↔ (texts.map fun s => Text.stripChars s.toList) ≠ [] := by simp
  rw [forall₂_holdsInteger_iff, hempty]
  simp only [infer]
  generalize (texts.map fun s => Text.stripChars s.toList) = cells
  -- Blank cells are left out at first, and make a column of doubles in the end, so a
  -- column of integers has none.
  constructor
  · intro h
    split at h
    · cases h
    · rename_i hpresent
      obtain ⟨hne, hcode⟩ := not_or.mp hpresent
      obtain ⟨numbers, hnumbers, h⟩ := Option.map_eq_some_iff.mp h
      split at h
      · rename_i integers' hintegers
        split at h
        · rename_i hlength
          cases h
          rw [List.filter_eq_self.mpr (List.length_filter_eq_length_iff.mp hlength)]
            at hne hcode hnumbers
          refine ⟨hne, ?_, numbers, hnumbers, hintegers⟩
          simpa using hcode
        · cases h
      · cases h
  · rintro ⟨hne, hcode, numbers, hnumbers, hintegers⟩
    rw [filter_ne_nil_of_mapM_eq_some hnumbers, if_neg (by simpa [hne] using hcode), hnumbers,
      Option.map_some, hintegers]
    simp

/-- A text that holds an integer is no code and stands for the integer. -/
theorem HoldsInteger.denotes {s : String} {z : Int} (hread : read.Lawful)
    (h : HoldsInteger read s z) :
    isCode (Text.stripChars s.toList) = false ∧ Denotes (Text.stripChars s.toList) z := by
  obtain ⟨hcode, hinteger⟩ := h
  obtain ⟨x, hx, hz⟩ := Option.bind_eq_some_iff.mp hinteger
  exact ⟨hcode, hread.denotes (NumberReader.cell_eq_some_iff.mp hx).2 hz⟩

/-- The integers of a column have few digits. -/
theorem natAbs_lt_of_infer (hread : read.Lawful) (h : infer read texts = some (.integer integers)) :
    ∀ z ∈ integers, z.natAbs < 10 ^ 15 := by
  have hcells := (infer_eq_integer_iff.mp h).2
  clear h
  induction hcells with
  | nil => simp
  | cons hcell _ ih =>
    obtain ⟨hcode, hdenotes⟩ := hcell.denotes hread
    rintro z hmem
    rcases List.mem_cons.mp hmem with rfl | hmem
    · exact hdenotes.natAbs_lt hcode
    · exact ih z hmem

/-- The integers of a column, as texts, become the column again. -/
theorem infer_map_toString (hread : read.Lawful) (hne : integers ≠ [])
    (h : ∀ z ∈ integers, z.natAbs < 10 ^ 15) :
    infer read (integers.map toString) = some (.integer integers) := by
  rw [infer_eq_integer_iff, List.forall₂_map_left_iff, List.forall₂_same]
  refine ⟨by simpa using hne, fun z hz => ?_⟩
  have hcode := isCode_toString_int (h z hz)
  have hdenotes := denotes_toString_int z
  obtain ⟨x, hx, hinteger, -⟩ := hread.integer hdenotes (isCode_eq_false_iff.mp hcode).2
  rw [HoldsInteger, stripChars_toString_int, NumberReader.cell_of_ne_nil hdenotes.ne_nil, hx]
  exact ⟨hcode, hinteger⟩

theorem infer_toString_of_infer (hread : read.Lawful)
    (h : infer read texts = some (.integer integers)) :
    infer read (integers.map toString) = some (.integer integers) := by
  refine infer_map_toString hread ?_ (natAbs_lt_of_infer hread h)
  rintro rfl
  obtain ⟨hne, hcells⟩ := infer_eq_integer_iff.mp h
  exact hne (List.forall₂_nil_right_iff.mp hcells)

end Cells

namespace Column

variable {column : Column}

/-- The column with its cells as texts. -/
def asTexts (column : Column) : Column := ⟨column.name, .untyped column.cells.texts⟩

@[simp] theorem name_infer (read : NumberReader) (column : Column) :
    (column.infer read).name = column.name := rfl

/-- A column of texts is looked at as it is. -/
theorem infer_of_untyped {texts : List String} (h : column.cells = .untyped texts) :
    column.infer read = { column with cells := (Cells.infer read texts).getD column.cells } := by
  rw [infer, h]
  rfl

/-- A column of texts stays, or becomes one of integers or of doubles. -/
theorem infer_cases {texts : List String} (h : column.cells = .untyped texts) :
    column.infer read = column ∧ Cells.infer read texts = none ∨
      (∃ integers, Cells.infer read texts = some (.integer integers) ∧
        (column.infer read).cells = .integer integers) ∨
      ∃ numbers, (column.infer read).cells = .real numbers := by
  rw [infer_of_untyped h]
  cases hinfer : Cells.infer read texts with
  | none => exact .inl ⟨rfl, rfl⟩
  | some cells =>
    rcases Cells.eq_integer_or_real_of_infer hinfer with ⟨integers, rfl⟩ | ⟨numbers, rfl⟩
    · exact .inr (.inl ⟨integers, rfl, rfl⟩)
    · exact .inr (.inr ⟨numbers, rfl⟩)

theorem length_texts_infer {texts : List String} (h : column.cells = .untyped texts)
    (hreal : ∀ numbers, (column.infer read).cells ≠ .real numbers) :
    (column.infer read).cells.texts.length = texts.length := by
  rcases infer_cases h with ⟨hkeep, -⟩ | ⟨integers, hinfer, hcells⟩ | ⟨numbers, hcells⟩
  · rw [hkeep, h, Cells.texts]
  · rw [hcells, Cells.texts, List.length_map]
    exact (Cells.infer_eq_integer_iff.mp hinfer).2.length_eq.symm
  · exact absurd hcells (hreal numbers)

theorem asTexts_of_untyped {texts : List String} (h : column.cells = .untyped texts) :
    column.asTexts = column := by
  cases column
  cases h
  rfl

/-- A typed column without doubles is found again in its texts. -/
theorem infer_asTexts_infer (hread : read.Lawful) {texts : List String}
    (h : column.cells = .untyped texts)
    (hreal : ∀ numbers, (column.infer read).cells ≠ .real numbers) :
    (column.infer read).asTexts.infer read = column.infer read := by
  rcases infer_cases h with ⟨hkeep, -⟩ | ⟨integers, hinfer, hcells⟩ | ⟨numbers, hcells⟩
  · -- The texts of a column of texts are the column, so it is kept for the same reason.
    rw [hkeep, asTexts_of_untyped h, hkeep]
  · have hcolumn : column.infer read = ⟨column.name, .integer integers⟩ := by
      rw [← name_infer read column, ← hcells]
    rw [hcolumn, asTexts, Cells.texts, infer_of_untyped rfl,
      Cells.infer_toString_of_infer hread hinfer]
    rfl
  · exact absurd hcells (hreal numbers)

end Column

@[simp] theorem Table.names_inferNumbers (read : NumberReader) (table : Table) :
    (table.inferNumbers read).names = table.names := by
  simp [inferNumbers, names]

end Delimited
