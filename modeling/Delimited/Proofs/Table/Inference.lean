import Delimited.Proofs.Table.Number
import Delimited.Proofs.Table.Rendering

/-!
# All or nothing

A column of texts becomes a column of numbers as a whole, or stays as it is. What
decides is said here cell by cell: the cells that are not blank are numbers, and none of
them looks like a code. Beyond the ten digits of ASCII it does not matter which characters
count as digits in a code, since a cell with such a character is no number.

Columns are converted one after another. As long as no column is converted twice, this
is as if they were converted at once. A column that is converted twice is first written
out: integers are found again in their digits and missing numbers are in the way of a
second conversion, but doubles have to be read back.

## Main definitions

* `IsPlainNumber`: the cells that count as numbers.
* `Cells.HoldNumbers`: the texts of a column that is converted.
* `Cells.InferredFrom`: what a column of texts is converted to.
* `Table.inferAt`: some columns of a table converted at once.

## Main results

* `Cells.exists_infer_iff_holdNumbers`: when a column is converted.
* `Cells.inferredFrom_infer`: a column and what it is converted to.
* `Column.infer_infer`: a column that was converted is not converted again.
* `Table.inferNamed_eq`: columns are converted each by itself, in whatever order.
* `inferNumbers_all_or_nothing`: what becomes of the columns of a table of texts.
-/

namespace Delimited

variable {read : NumberReader} {digit : Char → Prop} {cs : List Char}

/-! ### Cells that count -/

/-- The characters are a number, and neither filled with zeros nor an integer of sixteen or
more digits. -/
structure IsPlainNumber (read : NumberReader) (digit : Char → Prop) (cs : List Char) : Prop where
  number : ∃ x, read cs = some x ∧ x.double ≠ .nan
  not_padded : ¬ IsPadded digit cs
  not_long : ¬ IsRun digit 16 cs

theorem isPlainNumber_iff (hread : read.Lawful) (hdigit : IsDigitClass digit) :
    IsPlainNumber read digit cs ↔ isCode cs = false ∧ ∃ x, read cs = some x := by
  have hcode {x : Number} (hx : read cs = some x) :
      isCode cs = false ↔ ¬ IsPadded digit cs ∧ ¬ IsRun digit 16 cs := by
    have hascii := hread.digit_iff hdigit hx
    rw [isPadded_congr hascii, isRun_congr hascii, isCode_eq_false_iff]
  constructor
  · rintro ⟨⟨x, hx, -⟩, hpadded, hlong⟩
    exact ⟨(hcode hx).mpr ⟨hpadded, hlong⟩, x, hx⟩
  · rintro ⟨hplain, x, hx⟩
    obtain ⟨hpadded, hlong⟩ := (hcode hx).mp hplain
    exact ⟨⟨x, hx, x.double_ne_nan⟩, hpadded, hlong⟩

/-! ### Columns -/

namespace Cells

variable {texts : List String} {cells : Cells} {integers : List Int}
  {numbers : List (Option Double)}

/-- A text that is not blank is there, and all that are not blank are numbers that do not
look like codes. -/
structure HoldNumbers (read : NumberReader) (digit : Char → Prop) (texts : List String) :
    Prop where
  present : ∃ s ∈ texts, Text.stripChars s.toList ≠ []
  plain : ∀ s ∈ texts, Text.stripChars s.toList ≠ [] →
    IsPlainNumber read digit (Text.stripChars s.toList)

/-- No text is blank, and each is an integer written out. -/
def HoldIntegers (digit : Char → Prop) (texts : List String) : Prop :=
  ∀ s ∈ texts, Text.stripChars s.toList ≠ [] ∧ IsRun digit 1 (Text.stripChars s.toList)

/-- A column is converted when its texts are numbers. -/
theorem exists_infer_iff_holdNumbers (hread : read.Lawful) (hdigit : IsDigitClass digit) :
    (∃ cells, infer read texts = some cells) ↔ HoldNumbers read digit texts := by
  rw [exists_infer_eq_some_iff]
  simp only [← isPlainNumber_iff hread hdigit]
  exact ⟨fun h => ⟨h.1, h.2⟩, fun h => ⟨h.present, h.plain⟩⟩

/-- A column of doubles that is looked at again stays as it is, if doubles are read back. -/
theorem infer_shown_of_infer (hread : read.Lawful) (hback : read.ReadsBack)
    (h : infer read texts = some (.real numbers)) :
    (infer read (Cells.real numbers).shown).getD (.real numbers) = .real numbers := by
  cases hagain : infer read (Cells.real numbers).shown with
  | none => rfl
  | some cells =>
    rcases eq_integer_or_real_of_infer hagain with ⟨integers, rfl⟩ | ⟨again, rfl⟩
    · -- Its first cell does not stand for an integer.
      obtain ⟨hne, hintegers⟩ := infer_eq_integer_iff.mp hagain
      cases numbers with
      | nil => exact absurd rfl hne
      | cons y numbers =>
        obtain ⟨z, _, hz, -⟩ := List.forall₂_cons_left_iff.mp hintegers
        have hdenotes := (hz.denotes hread).2
        rw [Double.stripChars_render] at hdenotes
        exact absurd hdenotes (Double.not_denotes_render _ z)
    · have hread' := (exists_infer_eq_some_iff.mp ⟨_, hagain⟩).2
      rw [eq_map_of_infer hagain, Option.getD_some, shown, List.map_map]
      refine congrArg Cells.real ?_
      -- Every cell is read again, so none is missing.
      have hcell : ∀ y ∈ numbers, (read.cell (Text.stripChars
          ((y.getD .nan).render .cells).toList)).map Number.double = y := by
        intro y hy
        have hne := (y.getD .nan).toList_render_ne_nil
        obtain ⟨-, x, hx⟩ := hread' _ (List.mem_map_of_mem hy)
          (by rwa [Double.stripChars_render])
        rw [Double.stripChars_render] at hx ⊢
        rw [NumberReader.cell_of_ne_nil hne, hx, Option.map_some]
        cases y with
        | none =>
          rw [Option.getD_none, Double.render, hread.nan] at hx
          cases hx
        | some d =>
          obtain ⟨s, -, hs⟩ := List.mem_map.mp (eq_map_of_infer h ▸ hy)
          obtain ⟨number, hnumber, rfl⟩ := Option.map_eq_some_iff.mp hs
          exact congrArg some (hback _ _ _ (NumberReader.cell_eq_some_iff.mp hnumber).2 hx)
      calc
        _ = numbers.map id := List.map_congr_left hcell
        _ = numbers := List.map_id numbers

/-- A column of numbers becomes one of integers when no text is blank and all are integers. -/
theorem exists_infer_eq_integer_iff (hread : read.Lawful) (hdigit : IsDigitClass digit)
    (hnumbers : HoldNumbers read digit texts) :
    (∃ integers, infer read texts = some (.integer integers)) ↔ HoldIntegers digit texts := by
  have hne : texts ≠ [] := by
    obtain ⟨s, hs, -⟩ := hnumbers.present
    exact List.ne_nil_of_mem hs
  simp only [infer_eq_integer_iff, hne, ne_eq, not_false_eq_true, true_and, exists_forall₂_iff]
  refine forall₂_congr fun s hs => ⟨?_, ?_⟩
  · rintro ⟨z, hcode, hz⟩
    obtain ⟨x, hx, hz⟩ := Option.bind_eq_some_iff.mp hz
    obtain ⟨hblank, hx⟩ := NumberReader.cell_eq_some_iff.mp hx
    exact ⟨hblank, (hread.exists_integer?_iff hdigit hcode hx).mp ⟨z, hz⟩⟩
  · rintro ⟨hblank, hrun⟩
    obtain ⟨hcode, x, hx⟩ := (isPlainNumber_iff hread hdigit).mp (hnumbers.plain s hs hblank)
    obtain ⟨z, hz⟩ := (hread.exists_integer?_iff hdigit hcode hx).mpr hrun
    exact ⟨z, hcode, by rw [NumberReader.cell_of_ne_nil hblank, hx, Option.bind_some, hz]⟩

/-- The text is read as the integer `z`. -/
def IntegerOf (read : NumberReader) (s : String) (z : Int) : Prop :=
  ∃ x, read (Text.stripChars s.toList) = some x ∧ x.integer? = some z

/-- The cell is missing if the text is blank, and only then. Otherwise it is the double of
the number that the text is read as. -/
def RealOf (read : NumberReader) (s : String) (y : Option Double) : Prop :=
  (y = none ↔ Text.stripChars s.toList = []) ∧
    ∀ z, y = some z → z ≠ .nan ∧
      ∃ x, read (Text.stripChars s.toList) = some x ∧ z = x.double

/-- What is made of a column of texts. -/
structure InferredFrom (read : NumberReader) (digit : Char → Prop) (texts : List String)
    (cells : Cells) : Prop where
  /-- The cells are numbers exactly if the texts are. -/
  numeric_iff : cells.isNumeric = true ↔ HoldNumbers read digit texts
  /-- Otherwise the cells are the texts. -/
  kept : cells.isNumeric = false → cells = .untyped texts
  /-- Numbers are integers if no text is blank and all are integers, and doubles if not. -/
  kind_eq : cells.isNumeric = true →
    (HoldIntegers digit texts → cells.kind = "int64") ∧
      (¬ HoldIntegers digit texts → cells.kind = "float64")
  /-- A cell that is an integer is the one that its text is read as. -/
  integers : ∀ integers, cells = .integer integers → List.Forall₂ (IntegerOf read) texts integers
  /-- A cell that is a double is missing or is the one that its text is read as. -/
  reals : ∀ numbers, cells = .real numbers → List.Forall₂ (RealOf read) texts numbers

theorem InferredFrom.length_eq (h : InferredFrom read digit texts cells) :
    cells.length = texts.length := by
  by_cases hnumeric : cells.isNumeric = true
  · cases cells with
    | integer integers => exact (h.integers _ rfl).length_eq.symm
    | real numbers => exact (h.reals _ rfl).length_eq.symm
    | untyped _ => cases hnumeric
    | text _ => cases hnumeric
    | flag _ => cases hnumeric
  · rw [h.kept (Bool.not_eq_true _ ▸ hnumeric), length]

/-- The doubles of a column are missing where a text is blank, and numbers elsewhere. -/
theorem HoldNumbers.forall₂_realOf (hnumbers : HoldNumbers read digit texts)
    (h : infer read texts = some (.real numbers)) :
    List.Forall₂ (RealOf read) texts numbers := by
  rw [eq_map_of_infer h, List.forall₂_map_right_iff, List.forall₂_same]
  intro s hs
  by_cases hblank : Text.stripChars s.toList = []
  · simp only [RealOf, hblank, NumberReader.cell_nil, Option.map_none]
    exact ⟨trivial, fun z hz => nomatch hz⟩
  · obtain ⟨x, hx, hnan⟩ := (hnumbers.plain s hs hblank).number
    simp only [RealOf, NumberReader.cell_of_ne_nil hblank, hx, hblank, Option.map_some,
      Option.some.injEq]
    refine ⟨iff_of_false (by simp) not_false, ?_⟩
    rintro z rfl
    exact ⟨hnan, x, rfl, rfl⟩

/-- The integers of a column are what its texts are read as. -/
theorem forall₂_integerOf (h : infer read texts = some (.integer integers)) :
    List.Forall₂ (IntegerOf read) texts integers := by
  refine (infer_eq_integer_iff.mp h).2.imp fun _ _ hcell => ?_
  obtain ⟨x, hx, hz⟩ := Option.bind_eq_some_iff.mp hcell.2
  exact ⟨x, (NumberReader.cell_eq_some_iff.mp hx).2, hz⟩

/-- The cells that a column of texts gets. -/
theorem inferredFrom_infer (hread : read.Lawful) (hdigit : IsDigitClass digit)
    (texts : List String) :
    InferredFrom read digit texts ((infer read texts).getD (.untyped texts)) := by
  have hconverted : (∃ cells, infer read texts = some cells) ↔ HoldNumbers read digit texts :=
    exists_infer_iff_holdNumbers hread hdigit
  cases hinfer : infer read texts with
  | none =>
    have hkept : ¬ HoldNumbers read digit texts := by
      rw [← hconverted, hinfer]
      simp
    exact {
      numeric_iff := iff_of_false Bool.false_ne_true hkept
      kept := fun _ => rfl
      kind_eq := fun hnumeric => nomatch hnumeric
      integers := fun _ hcells => nomatch hcells
      reals := fun _ hcells => nomatch hcells }
  | some cells =>
    have hnumbers : HoldNumbers read digit texts := hconverted.mp ⟨cells, hinfer⟩
    have hinteger := exists_infer_eq_integer_iff hread hdigit hnumbers
    rw [Option.getD_some]
    rcases eq_integer_or_real_of_infer hinfer with ⟨integers, rfl⟩ | ⟨numbers, rfl⟩
    · exact {
        numeric_iff := iff_of_true rfl hnumbers
        kept := fun hnumeric => nomatch hnumeric
        kind_eq := fun _ => ⟨fun _ => rfl, fun h => absurd (hinteger.mp ⟨integers, hinfer⟩) h⟩
        integers := by
          rintro _ ⟨⟩
          exact forall₂_integerOf hinfer
        reals := fun _ hcells => nomatch hcells }
    · -- The same texts do not become doubles here and integers there.
      have hreal : ¬ HoldIntegers digit texts := by
        rw [← hinteger, hinfer]
        simp
      exact {
        numeric_iff := iff_of_true rfl hnumbers
        kept := fun hnumeric => nomatch hnumeric
        kind_eq := fun _ => ⟨fun h => absurd h hreal, fun _ => rfl⟩
        integers := fun _ hcells => nomatch hcells
        reals := by
          rintro _ ⟨⟩
          exact hnumbers.forall₂_realOf hinfer }

end Cells

/-! ### Tables -/

namespace Column

variable {column : Column}

/-- A column that was converted is not converted again, if doubles are read back. -/
theorem infer_infer (hread : read.Lawful) (hback : read.ReadsBack) (column : Column) :
    (column.infer read).infer read = column.infer read := by
  cases hinfer : Cells.infer read column.cells.shown with
  | none =>
    have hkeep : column.infer read = column := by rw [infer, hinfer, Option.getD_none]
    rw [hkeep, hkeep]
  | some cells =>
    have htyped : column.infer read = ⟨column.name, cells⟩ := by
      rw [infer, hinfer, Option.getD_some]
    rw [htyped, infer, Column.mk.injEq]
    refine ⟨rfl, ?_⟩
    -- Integers are found again in their digits, and doubles in their decimals.
    rcases Cells.eq_integer_or_real_of_infer hinfer with ⟨integers, rfl⟩ | ⟨numbers, rfl⟩
    · have hagain : Cells.infer read (Cells.integer integers).shown = some (.integer integers) :=
        Cells.infer_toString_of_infer hread hinfer
      rw [hagain, Option.getD_some]
    · exact Cells.infer_shown_of_infer hread hback hinfer

end Column

namespace Table

variable {t : Table} {name : String} {names first second : List String}

/-- The table with the numbers of the columns with the given names, at once. -/
def inferAt (read : NumberReader) (t : Table) (names : List String) : Table :=
  { t with columns := t.columns.map fun c => if c.name ∈ names then c.infer read else c }

@[simp] theorem names_inferAt (read : NumberReader) (t : Table) (names : List String) :
    (t.inferAt read names).names = t.names := by
  simp only [Table.names, inferAt, List.map_map]
  refine List.map_congr_left fun c _ => ?_
  rw [Function.comp_apply]
  split <;> simp

theorem inferAt_nil (read : NumberReader) (t : Table) : t.inferAt read [] = t := by
  simp [inferAt]

/-- Columns are converted in two steps as if at once, if none is converted twice or doubles
are read back. -/
theorem inferAt_inferAt (hread : read.Lawful) (t : Table)
    (h : (∀ name ∈ first, name ∉ second) ∨ read.ReadsBack) :
    (t.inferAt read first).inferAt read second = t.inferAt read (first ++ second) := by
  simp only [inferAt, List.map_map, Table.mk.injEq, true_and]
  refine List.map_congr_left fun c _ => ?_
  rw [Function.comp_apply]
  by_cases hfirst : c.name ∈ first
  · by_cases hsecond : c.name ∈ second
    · have hback := h.resolve_left fun hapart => hapart _ hfirst hsecond
      simp [hfirst, hsecond, Column.infer_infer hread hback]
    · simp [hfirst, hsecond]
  · simp [hfirst]

theorem inferAt_names (read : NumberReader) (t : Table) :
    t.inferAt read t.names = t.inferNumbers read := by
  simp only [inferAt, inferNumbers, Table.mk.injEq, true_and]
  refine List.map_congr_left fun c hc => if_pos ?_
  exact List.mem_map_of_mem hc

theorem inferColumn_eq (h : name ∈ t.names) :
    t.inferColumn read name = .ok (t.inferAt read [name]) := by
  simp [inferColumn, inferAt, h]

/-- Columns are converted one after another as if at once, if none is named twice or doubles
are read back. -/
theorem inferNamed_eq (hread : read.Lawful) (h : ∀ name ∈ names, name ∈ t.names)
    (hagain : names.Nodup ∨ read.ReadsBack) :
    t.inferNamed read names = .ok (t.inferAt read names) := by
  induction names generalizing t with
  | nil => rw [inferAt_nil]; rfl
  | cons name names ih =>
    obtain ⟨hname, hnames⟩ := List.forall_mem_cons.mp h
    rw [List.nodup_cons] at hagain
    have hrest : (t.inferAt read [name]).inferNamed read names =
        .ok ((t.inferAt read [name]).inferAt read names) :=
      ih (by simpa using hnames) (hagain.imp_left And.right)
    have hapart : (∀ name' ∈ [name], name' ∉ names) ∨ read.ReadsBack := by
      simpa using hagain.imp_left And.left
    calc
      t.inferNamed read (name :: names)
          = t.inferColumn read name >>= fun u => u.inferNamed read names := rfl
      _ = (t.inferAt read [name]).inferNamed read names := by rw [inferColumn_eq hname]; rfl
      _ = .ok (t.inferAt read (name :: names)) := by
        rw [hrest, inferAt_inferAt hread t hapart, List.singleton_append]

/-- All columns are converted one after another as if at once. -/
theorem inferNamed_names (hread : read.Lawful) (t : Table)
    (hagain : t.names.Nodup ∨ read.ReadsBack) :
    t.inferNamed read t.names = .ok (t.inferNumbers read) := by
  rw [inferNamed_eq hread (fun _ hname => hname) hagain, inferAt_names]

end Table

/-- Each column of a table of texts is converted as a whole or stays as it is, whichever
texts are read as numbers. -/
theorem inferNumbers_all_or_nothing (hread : read.Lawful) (hdigit : IsDigitClass digit)
    {t : Table} (hnames : t.names.Nodup)
    (htexts : ∀ column ∈ t.columns,
      ∃ texts, column.cells = .untyped texts ∧ texts.length = t.rows) :
    t.inferNamed read t.names = .ok (t.inferNumbers read) ∧
      (t.inferNumbers read).names = t.names ∧ (t.inferNumbers read).rows = t.rows ∧
      (∀ column ∈ (t.inferNumbers read).columns, column.cells.length = t.rows) ∧
      ∀ (i : Nat) (name : String) (texts : List String),
        t.columns[i]? = some ⟨name, .untyped texts⟩ →
          ∃ cells, (t.inferNumbers read).columns[i]? = some ⟨name, cells⟩ ∧
            cells.InferredFrom read digit texts := by
  have hinfer (texts : List String) := Cells.inferredFrom_infer hread hdigit texts
  refine ⟨t.inferNamed_names hread (.inl hnames), t.names_inferNumbers read, rfl,
    fun column hcolumn => ?_, fun i name texts hi => ?_⟩
  · obtain ⟨source, hsource, rfl⟩ := List.mem_map.mp hcolumn
    obtain ⟨texts, hcells, hlength⟩ := htexts source hsource
    rw [Column.infer_of_untyped hcells, hcells]
    exact (hinfer texts).length_eq.trans hlength
  · refine ⟨_, ?_, hinfer texts⟩
    rw [Table.inferNumbers, List.getElem?_map, hi]
    rfl

/-- Where one more character counts as a digit, a column with a code stays, one of integers
becomes one, and one with a blank cell becomes one of doubles. -/
theorem inferNumbers_all_or_nothing_mixed :
    let digit : Char → Prop := fun c => c.isDigit = true ∨ c = '\u0663'
    let t : Table := ⟨2, [⟨"code", .untyped ["0\u0663", "1"]⟩,
      ⟨"count", .untyped [" -20 ", "3"]⟩, ⟨"price", .untyped ["1.5", ""]⟩]⟩
    IsDigitClass digit ∧ t.names.Nodup ∧
      t.inferNamed Numeral.read ["code", "count", "price"] = .ok (t.inferNumbers Numeral.read) ∧
      (t.inferNumbers Numeral.read).names = ["code", "count", "price"] ∧
      (∀ column ∈ (t.inferNumbers Numeral.read).columns, column.cells.length = 2) ∧
      Cells.InferredFrom Numeral.read digit ["0\u0663", "1"] (.untyped ["0\u0663", "1"]) ∧
      Cells.InferredFrom Numeral.read digit [" -20 ", "3"] (.integer [-20, 3]) ∧
      Cells.InferredFrom Numeral.read digit ["1.5", ""]
        (.real [some (.finite false 6755399441055744 (-52)), none]) := by
  intro digit t
  have hdigit : IsDigitClass digit := by
    intro c hc
    refine or_iff_left ?_
    rintro rfl
    exact absurd hc (by decide)
  have hnodup : t.names.Nodup := by decide
  have htyped : (t.inferNumbers Numeral.read).columns = [⟨"code", .untyped ["0\u0663", "1"]⟩,
      ⟨"count", .integer [-20, 3]⟩,
      ⟨"price", .real [some (.finite false 6755399441055744 (-52)), none]⟩] := by
    decide +kernel
  have h := inferNumbers_all_or_nothing Numeral.lawful_read hdigit (t := t) hnodup (by simp [t])
  rw [htyped] at h
  obtain ⟨hnamed, hnames, -, hlength, hcolumn⟩ := h
  obtain ⟨_, ⟨⟩, hcode⟩ := hcolumn 0 "code" _ rfl
  obtain ⟨_, ⟨⟩, hcount⟩ := hcolumn 1 "count" _ rfl
  obtain ⟨_, ⟨⟩, hprice⟩ := hcolumn 2 "price" _ rfl
  exact ⟨hdigit, hnodup, hnamed, hnames, htyped ▸ hlength, hcode, hcount, hprice⟩

end Delimited
