import Delimited.Conversion.Description
import Delimited.Proofs.Conversion.Fixpoint
import Delimited.Table.Numeral

/-!
# Descriptions and the tables they describe

A description takes the name of a column from the header, its kind from the table, and
whether it holds numbers from a list of names. The three agree because the names of a
table are all different: a header is checked for that, and the default names are made
that way.

## Main definitions

* `Table.cell?`: the cell in a row of a named column.
* `Description.RowOf`: a row of a description says what is true of a column.

## Main results

* `nodup_names_of_gives_transform`: the columns of a table have different names.
* `exists_gives_describe_iff`: when a table is described, and as what.
* `describe_matches_columns`: the description of a table has a row for each column.
-/

namespace Delimited

variable {read : NumberReader} {now : String} {c : Config} {d : Document} {names : List String}
  {t : Transformed} {table m : Table} {column : Column} {i : Nat} {w w' v v' : World}

/-! ### Cells -/

/-- A cell of a table. -/
inductive Cell where
  /-- A text. -/
  | text (s : String)
  /-- An integer. -/
  | integer (n : Int)
  /-- A number, if it is not missing. -/
  | real (x : Option Double)
  /-- A truth value. -/
  | flag (b : Bool)
  deriving DecidableEq, Repr

namespace Cells

/-- The cell in a place. -/
def cell? : Cells → Nat → Option Cell
  | untyped cells, i => cells[i]?.map .text
  | text cells, i => cells[i]?.map .text
  | integer cells, i => cells[i]?.map .integer
  | real cells, i => cells[i]?.map .real
  | flag cells, i => cells[i]?.map .flag

/-- The cells that are numbers are those of two kinds. -/
theorem isNumeric_iff_kind (cells : Cells) :
    cells.isNumeric = true ↔ cells.kind = "int64" ∨ cells.kind = "float64" := by
  cases cells <;> simp [isNumeric, kind]

end Cells

/-- The cell in row `i` of the column with a name. -/
def Table.cell? (table : Table) (name : String) (i : Nat) : Option Cell :=
  (table.columns.find? fun column => column.name = name).bind fun column => column.cells.cell? i

/-! ### Names -/

theorem nodup_of_repeatedNames_eq_nil (h : repeatedNames names = []) : names.Nodup := by
  refine List.nodup_iff_count_le_one.mpr fun name => ?_
  by_contra hcount
  have hmem : name ∈ repeatedNames names := mem_repeatedNames_iff.mpr (by omega)
  rw [h] at hmem
  exact List.not_mem_nil hmem

/-- The columns of a table that was made of a document have different names. -/
theorem nodup_names_of_gives_transform (h : (transform read c d).Gives w t w') :
    t.table.names.Nodup := by
  obtain ⟨hheader, table, htable, rfl⟩ := exists_gives_transform_iff.mp ⟨_, h⟩
  rw [Transform.names_typed, Table.names_of_ofDocument htable]
  split
  · rename_i hheaded
    obtain ⟨first, others, rfl, hfirst⟩ := hheader hheaded
    exact nodup_of_repeatedNames_eq_nil hfirst
  · exact nodup_defaultNames _

theorem header_of_gives_transform (h : (transform read c d).Gives w t w') :
    t.header = t.table.names := by
  obtain ⟨-, table, -, rfl⟩ := exists_gives_transform_iff.mp ⟨_, h⟩
  unfold Transform.typed
  split <;> rfl

/-- If the names are all different, a column is named as one with numbers when it is
one. -/
theorem Table.mem_numericNames_iff (hnames : table.names.Nodup)
    (hcolumn : column ∈ table.columns) :
    column.name ∈ table.numericNames ↔ column.cells.isNumeric = true := by
  simp only [numericNames, List.mem_map, List.mem_filter]
  constructor
  · rintro ⟨other, ⟨hother, hnumeric⟩, hname⟩
    rwa [← List.inj_on_of_nodup_map hnames hother hcolumn hname]
  · intro hnumeric
    exact ⟨column, ⟨hcolumn, hnumeric⟩, rfl⟩

/-- A column is named as one with numbers when it is one, also if no numbers were
looked for. -/
theorem mem_numeric_iff_of_gives_transform (h : (transform read c d).Gives w t w')
    (hcolumn : column ∈ t.table.columns) :
    column.name ∈ t.numeric ↔ column.cells.isNumeric = true := by
  have hnames := nodup_names_of_gives_transform h
  obtain ⟨-, table, htable, rfl⟩ := exists_gives_transform_iff.mp ⟨_, h⟩
  unfold Transform.typed at hnames hcolumn ⊢
  split at hnames <;> rename_i hinfer
  · rw [if_pos hinfer] at hcolumn ⊢
    exact Table.mem_numericNames_iff hnames hcolumn
  · rw [if_neg hinfer] at hcolumn ⊢
    obtain ⟨texts, hcells, -⟩ := Table.exists_untyped_of_ofDocument htable hcolumn
    simp [hcells, Cells.isNumeric]

/-- The records of a document are the rows of its table, and its header. -/
theorem length_of_gives_transform (h : (transform read c d).Gives w t w') :
    d.length = t.table.rows + if c.table.header then 1 else 0 := by
  obtain ⟨-, table, htable, rfl⟩ := exists_gives_transform_iff.mp ⟨_, h⟩
  have hrows : (Transform.typed read c table).table.rows = table.rows := by
    unfold Transform.typed
    split <;> rfl
  rw [hrows]
  cases d with
  | nil => simp [Table.ofDocument] at htable
  | cons first others =>
    obtain ⟨-, rfl⟩ := Table.ofDocument_cons_eq_ok_iff.mp htable
    cases c.table.header <;> simp [Table.ofRows]

/-! ### Descriptions -/

namespace Description

variable {x : Description}

/-- A source has a digest if it can be read, and an empty one if it is not there. -/
theorem exists_gives_digestOf_iff {path digest : String} :
    (∃ w', (digestOf path).Gives w digest w') ↔
      (∃ bytes, w.files.read (.ofString path) = .ok bytes ∧ digest = Sha256.digest bytes) ∨
        (∃ p, w.files.read (.ofString path) = .error ⟨.notFound, p⟩) ∧ digest = "" := by
  constructor
  · rintro ⟨w', h⟩
    simp only [digestOf, Job.gives_bind_iff, Job.gives_files_iff] at h
    obtain ⟨_, _, ⟨rfl, rfl⟩, h⟩ := h
    split at h
    · rename_i bytes hread
      exact .inl ⟨bytes, hread, (Job.gives_pure_iff.mp h).1.symm⟩
    · rename_i p hread
      obtain ⟨_, _, -, h⟩ := Job.gives_bind_iff.mp h
      exact .inr ⟨⟨p, hread⟩, (Job.gives_pure_iff.mp h).1.symm⟩
    · exact absurd h Job.not_gives_throw
  · rintro (⟨bytes, hread, rfl⟩ | ⟨⟨p, hread⟩, rfl⟩)
    all_goals
      refine ⟨_, Job.gives_of_outcome ?_⟩
      simp only [digestOf, Job.outcome_bind, Job.outcome_files, hread]
      rfl

/-- A description with rows has the columns that it was given. -/
theorem columns_table_of_ne_nil (h : t.header ≠ []) : (x.table t).columns = x.columns t := by
  simp [table, h]

/-- Every column of a description has a cell in each row. -/
theorem length_cells_of_mem_table (hheader : t.header.length = t.table.columns.length)
    (hcolumn : column ∈ (x.table t).columns) : column.cells.length = (x.table t).rows := by
  by_cases hnil : t.header = []
  · obtain ⟨column, -, rfl⟩ := List.mem_map.mp hcolumn
    simp [hnil, table, Cells.length]
  · rw [columns_table_of_ne_nil hnil] at hcolumn
    -- One cell for each name, except that the kinds are those of the columns.
    simp only [columns, List.mem_cons, List.not_mem_nil, or_false] at hcolumn
    rcases hcolumn with rfl | rfl | rfl | rfl | rfl | rfl | rfl | rfl | rfl | rfl | rfl <;>
      simp [Cells.length, table, hheader]

/-- Row `i` of the table `m` says what is true of the column in place `i` of a table that
was made under some settings. -/
structure RowOf (c : Config) (table m : Table) (i : Nat) (column : Column) : Prop where
  /-- The row has the place of the column. -/
  index : m.cell? "column_index" i = some (.integer i)
  /-- The row has the name by which the column is exported. -/
  name : ∃ name, table.records.field? 0 i = some name ∧
    m.cell? "column_name" i = some (.text name)
  /-- The row has the kind of the column. -/
  kind : m.cell? "dtype" i = some (.text column.cells.kind)
  /-- The row tells whether that kind is one of numbers. -/
  numeric : m.cell? "numeric" i =
    some (.flag (column.cells.kind = "int64" ∨ column.cells.kind = "float64"))
  /-- The row tells whether the first record named the columns. -/
  header : m.cell? "header" i = some (.flag c.table.header)
  /-- The row has the number of records, the one with the names among them. -/
  recordCount : m.cell? "record_count" i =
    some (.integer (table.rows + if c.table.header then 1 else 0))

/-- The rows of a description are true of the columns if what it was made from is. -/
theorem rowOf_table (hheader : t.header = t.table.names)
    (hnumeric : column.name ∈ t.numeric ↔ column.cells.isNumeric = true)
    (hcount : x.recordCount = t.table.rows + if x.config.table.header then 1 else 0)
    (hcolumn : t.table.columns[i]? = some column) :
    RowOf x.config t.table (x.table t) i column := by
  have hname : t.header[i]? = some column.name := by simp [hheader, Table.names, hcolumn]
  obtain ⟨hi, -⟩ := List.getElem?_eq_some_iff.mp hname
  have hcell (name : String) : (x.table t).cell? name i =
      ((x.columns t).find? fun column => column.name = name).bind fun column =>
        column.cells.cell? i := by
    rw [Table.cell?, columns_table_of_ne_nil (List.ne_nil_of_length_pos (by omega))]
  constructor
  · rw [hcell]
    simp [columns, Cells.cell?, hi]
  · refine ⟨column.name, ?_, ?_⟩
    · rw [Document.field?, Table.records, List.getElem?_cons_zero, ← hheader]
      exact hname
    · rw [hcell]
      simp [columns, Cells.cell?, hname]
  · rw [hcell]
    simp [columns, Cells.cell?, hcolumn]
  · rw [hcell]
    simp [columns, Cells.cell?, hname, hnumeric, Cells.isNumeric_iff_kind]
  · rw [hcell]
    simp [columns, Cells.cell?, hi]
  · rw [hcell]
    simp [columns, Cells.cell?, hi, hcount]

end Description

/-- A table is described if its source has a digest. -/
theorem exists_gives_describe_iff {n : Int} :
    (∃ w', (describe now c t n).Gives w m w') ↔
      ∃ digest, (∃ w', (Description.digestOf c.source.inputPath).Gives w digest w') ∧
        m = Description.table ⟨c, digest, n, now⟩ t := by
  simp only [describe, Job.gives_bind_iff, Job.info, Job.report, Job.gives_modify_iff,
    Job.gives_pure_iff]
  constructor
  · rintro ⟨_, digest, w₁, hdigest, _, _, rfl, rfl, rfl⟩
    exact ⟨digest, ⟨w₁, hdigest⟩, rfl⟩
  · rintro ⟨digest, ⟨w₁, hdigest⟩, rfl⟩
    exact ⟨_, digest, w₁, hdigest, (), _, rfl, rfl, rfl⟩

/-- The description of a table that was made of a document has one row for each column
of the table, in order, and the row says what is true of the column. -/
theorem describe_matches_columns (ht : (transform read c d).Gives w t w')
    (hm : (describe now c t d.length).Gives v m v') :
    m.rows = t.table.columns.length ∧
      (∀ column ∈ m.columns, column.cells.length = m.rows) ∧
      ∀ i column, t.table.columns[i]? = some column →
        Description.RowOf c t.table m i column := by
  obtain ⟨digest, -, rfl⟩ := exists_gives_describe_iff.mp ⟨v', hm⟩
  have hheader := header_of_gives_transform ht
  have hlength : t.header.length = t.table.columns.length := by rw [hheader, Table.length_names]
  have hcount : (d.length : Int) = t.table.rows + if c.table.header then 1 else 0 := by
    rw [length_of_gives_transform ht]
    split <;> rfl
  refine ⟨hlength, fun column => Description.length_cells_of_mem_table hlength, ?_⟩
  intro i column hcolumn
  have hnumeric := mem_numeric_iff_of_gives_transform ht (List.mem_of_getElem? hcolumn)
  exact Description.rowOf_table (x := ⟨c, digest, d.length, now⟩) hheader hnumeric hcount hcolumn

/-- A table whose source is not there, with one column of texts and one of numbers, is
described by two rows. -/
theorem describe_matches_columns_absent :
    ∃ t w' m v',
      (transform Numeral.read { source := { inputPath := "in.csv" } }
        [["item", "count"], ["nut", "3"], ["bolt", " 12"]]).Gives {} t w' ∧
      (describe "2024-01-01T00:00:00+00:00" { source := { inputPath := "in.csv" } } t 3).Gives
        w' m v' ∧
      m.rows = 2 ∧
      (m.cell? "dtype" 0 = some (.text "object") ∧ m.cell? "numeric" 0 = some (.flag false)) ∧
      (m.cell? "dtype" 1 = some (.text "int64") ∧ m.cell? "numeric" 1 = some (.flag true)) := by
  let c : Config := { source := { inputPath := "in.csv" } }
  let d : Document := [["item", "count"], ["nut", "3"], ["bolt", " 12"]]
  obtain ⟨t, w', ht, hcolumns⟩ : ∃ t w', (transform Numeral.read c d).Gives {} t w' ∧
      t.table.columns = [⟨"item", .untyped ["nut", "bolt"]⟩, ⟨"count", .integer [3, 12]⟩] := by
    obtain ⟨w', ht⟩ := exists_gives_transform_iff (c := c) (d := d) (w := {}).mpr
      ⟨fun _ => ⟨_, _, rfl, repeatedNames_eq_nil_of_nodup (by decide)⟩, _, rfl, rfl⟩
    exact ⟨_, w', ht, by decide +kernel⟩
  have habsent : w'.files.read (.ofString "in.csv") = .error ⟨.notFound, .ofString "in.csv"⟩ := by
    rw [(isQuery_transform _ c d).files_eq ht]
    decide +kernel
  have hdigest := Description.exists_gives_digestOf_iff.mpr (.inr ⟨⟨_, habsent⟩, rfl⟩)
  obtain ⟨m, v', hm⟩ : ∃ m v',
      (describe "2024-01-01T00:00:00+00:00" c t d.length).Gives w' m v' :=
    ⟨_, exists_gives_describe_iff.mpr ⟨"", hdigest, rfl⟩⟩
  obtain ⟨hrows, -, hrow⟩ := describe_matches_columns ht hm
  rw [hcolumns] at hrows hrow
  have hitem := hrow 0 _ rfl
  have hcount := hrow 1 _ rfl
  exact ⟨t, w', m, v', ht, hm, hrows, ⟨hitem.kind, hitem.numeric⟩, hcount.kind, hcount.numeric⟩

end Delimited
