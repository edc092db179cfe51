import Delimited.Proofs.Conversion.Transform
import Delimited.Proofs.RoundTrip
import Delimited.Proofs.Table.Number
import Delimited.Proofs.Table.Numeral
import Mathlib.Data.List.Nodup

/-!
# Tables that are made again

The records of a typed table, read as a document with a header, make the table
again. Each column is found again in its texts, unless it holds doubles, whose
texts may be those of integers.

## Main results

* `Table.ofDocument_records`: the table of the records of a table.
* `Table.inferNumbers_map_asTexts`: the columns of a typed table are found again.
* `transform_records_again`: a table that was written, read and made again.
-/

namespace Delimited

variable {read : NumberReader} {c c' : Config} {d : Document} {n : Nat} {names : List String}
  {t : Transformed}
  {table : Table} {w w' : World}

/-! ### Names -/

theorem mem_repeatedNames_iff {name : String} :
    name ∈ repeatedNames names ↔ 2 ≤ names.count name := by
  simp only [repeatedNames, List.mem_mergeSort, List.mem_eraseDups, List.mem_filter,
    decide_eq_true_eq, Nat.lt_iff_add_one_le]
  exact and_iff_right_of_imp fun hcount => List.count_pos_iff.mp (by omega)

/-- No name is repeated if the names are all different. -/
theorem repeatedNames_eq_nil_of_nodup (h : names.Nodup) : repeatedNames names = [] := by
  refine List.eq_nil_iff_forall_not_mem.mpr fun name hname => ?_
  have hcount := List.nodup_iff_count_le_one.mp h name
  have htwice := mem_repeatedNames_iff.mp hname
  omega

theorem nodup_defaultNames (n : Nat) : (defaultNames n).Nodup := by
  refine List.Nodup.map (fun i j h => ?_) List.nodup_range
  -- The names have the same start, so their numbers have the same digits.
  have hdigits : Nat.toDigits 10 (i + 1) = Nat.toDigits 10 (j + 1) := by
    simpa [Nat.toString_eq_repr] using congrArg String.toList h
  have hvalue := congrArg digitsValue hdigits
  simpa using hvalue

/-! ### Tables -/

namespace Table

variable {header : Bool}

/-- A table of a document is named by its first record, or by default. -/
theorem names_of_ofDocument (h : ofDocument header d = .ok table) :
    table.names = if header then d.headD [] else defaultNames (d.headD []).length := by
  cases d with
  | nil => simp [ofDocument] at h
  | cons first others =>
    obtain ⟨-, rfl⟩ := ofDocument_cons_eq_ok_iff.mp h
    cases header <;> simp

/-- A table of a document has texts in its columns, one for each row. -/
theorem exists_untyped_of_ofDocument (h : ofDocument header d = .ok table) {column : Column}
    (hcolumn : column ∈ table.columns) :
    ∃ texts, column.cells = .untyped texts ∧ texts.length = table.rows := by
  obtain ⟨names, rows, rfl⟩ : ∃ names rows, table = ofRows names rows := by
    cases d with
    | nil => simp [ofDocument] at h
    | cons first others =>
      obtain ⟨-, rfl⟩ := ofDocument_cons_eq_ok_iff.mp h
      cases header <;> exact ⟨_, _, rfl⟩
  rw [columns_ofRows] at hcolumn
  obtain ⟨⟨name, texts⟩, hmem, rfl⟩ := List.mem_map.mp hcolumn
  exact ⟨texts, rfl, length_of_mem_transpose (List.of_mem_zip hmem).2⟩

/-- The records of a table make a table with the same names and texts. -/
theorem ofDocument_records
    (h : ∀ column ∈ table.columns, column.cells.texts.length = table.rows) :
    ofDocument true table.records =
      .ok { table with columns := table.columns.map Column.asTexts } := by
  rw [records, ofDocument_cons_eq_ok_iff]
  refine ⟨fun r hr => ?_, ?_⟩
  · rw [length_of_mem_transpose hr, List.length_map, length_names]
  · have hrows : transpose table.names.length
        (transpose table.rows (table.columns.map fun c => c.cells.texts)) =
          table.columns.map fun c => c.cells.texts := by
      have hlength : table.names.length = (table.columns.map fun c => c.cells.texts).length := by
        simp
      rw [hlength]
      exact transpose_transpose (by simpa using h)
    have hcolumns := columns_ofRows table.names
      (transpose table.rows (table.columns.map fun c => c.cells.texts))
    rw [hrows, names, List.zip_map', List.map_map] at hcolumns
    refine (mk.injEq _ _ _ _).mpr ⟨(length_transpose _ _).symm, hcolumns.symm⟩

variable (htexts : ∀ column ∈ table.columns,
    ∃ texts, column.cells = .untyped texts ∧ texts.length = table.rows)
  (hreal : ∀ column ∈ (table.inferNumbers read).columns, ∀ numbers,
    column.cells ≠ .real numbers)

include htexts hreal

theorem length_texts_inferNumbers : ∀ column ∈ (table.inferNumbers read).columns,
    column.cells.texts.length = (table.inferNumbers read).rows := by
  intro column hcolumn
  obtain ⟨column, hmem, rfl⟩ := List.mem_map.mp hcolumn
  obtain ⟨texts, hcells, hlength⟩ := htexts column hmem
  rw [Column.length_texts_infer hcells (hreal _ hcolumn), hlength]
  rfl

/-- The columns of a typed table without doubles are found again in their texts. -/
theorem inferNumbers_map_asTexts (hread : read.Lawful) :
    inferNumbers read { table.inferNumbers read with
      columns := (table.inferNumbers read).columns.map Column.asTexts } =
        table.inferNumbers read := by
  simp only [inferNumbers, List.map_map, mk.injEq, true_and]
  refine List.map_congr_left fun column hcolumn => ?_
  obtain ⟨texts, hcells, -⟩ := htexts column hcolumn
  exact Column.infer_asTexts_infer hread hcells (hreal _ (List.mem_map_of_mem hcolumn))

end Table

theorem Transform.names_typed (read : NumberReader) (c : Config) (table : Table) :
    (typed read c table).table.names = table.names := by
  unfold typed
  split <;> simp

/-- A table with its number columns, if none of them holds doubles, is written as a
text that is read to its end, and the records that are read make the table again,
with the same names and number columns. -/
theorem transform_records_again (hread : read.Lawful) (b : LineBreak) (trailing : Bool)
    (hn : 1 ≤ n)
    (hwidth : ∀ r ∈ d, r.length = n) (hinfer : c.table.inferNumbers = true)
    (h : (transform read c d).Gives w t w')
    (hreal : ∀ column ∈ t.table.columns, ∀ numbers, column.cells ≠ .real numbers)
    (hheader : c'.table.header = true) (hinfer' : c'.table.inferNumbers = true) (v : World) :
    ∃ text d' v', formatDocument t.table.records b trailing = .ok text ∧
      parseDocument (.ofString text) = .ok (.success (.ofString text text.length) d') ∧
      (transform read c' d').Gives v t v' := by
  obtain ⟨hnames, table, htable, rfl⟩ := exists_gives_transform_iff.mp ⟨_, h⟩
  have htyped (c : Config) (hinfer : c.table.inferNumbers = true) (table : Table) :
      Transform.typed read c table =
        ⟨table.inferNumbers read, (table.inferNumbers read).names,
          (table.inferNumbers read).numericNames⟩ :=
    if_pos hinfer
  rw [htyped c hinfer] at hreal ⊢
  have htexts : ∀ column ∈ table.columns,
      ∃ texts, column.cells = .untyped texts ∧ texts.length = table.rows :=
    fun _ => Table.exists_untyped_of_ofDocument htable
  have hcolumns : 1 ≤ (table.inferNumbers read).columns.length := by
    simpa [Table.inferNumbers] using Table.one_le_length_columns_of_ofDocument hn hwidth htable
  have hdistinct : repeatedNames (table.inferNumbers read).names = [] := by
    rw [Table.names_inferNumbers, Table.names_of_ofDocument htable]
    cases hheader : c.table.header with
    | false => exact repeatedNames_eq_nil_of_nodup (nodup_defaultNames _)
    | true =>
      obtain ⟨first, others, rfl, hfirst⟩ := hnames hheader
      exact hfirst
  obtain ⟨text, htext, hparse⟩ := exists_formatDocument_eq b trailing
    (table.inferNumbers read).records_ne_nil hcolumns fun _ => Table.length_of_mem_records
  have hagain := Table.ofDocument_records (Table.length_texts_inferNumbers htexts hreal)
  obtain ⟨v', hgives⟩ : ∃ v', (transform read c' (table.inferNumbers read).records).Gives v _ v' :=
    exists_gives_transform_iff.mpr ⟨fun _ => ⟨_, _, rfl, hdistinct⟩, _, hheader ▸ hagain, rfl⟩
  rw [htyped c' hinfer', Table.inferNumbers_map_asTexts htexts hreal hread] at hgives
  exact ⟨text, _, v', htext, hparse, hgives⟩

/-- A table without a header, of a column of codes and one of integers with blanks
around them, is made again with the names it was given. -/
theorem transform_records_again_codes :
    ∃ t w' text d' v',
      (transform Numeral.read { source := { inputPath := "in.csv" }, table := { header := false } }
        [["1", " -20 "], ["0042", "3"]]).Gives {} t w' ∧
      t.table.columns = [⟨"column_1", .untyped ["1", "0042"]⟩, ⟨"column_2", .integer [-20, 3]⟩] ∧
      formatDocument t.table.records .lf false = .ok text ∧
      parseDocument (.ofString text) = .ok (.success (.ofString text text.length) d') ∧
      (transform Numeral.read { source := { inputPath := "out.csv" } } d').Gives {} t v' := by
  obtain ⟨w', h⟩ : ∃ w', (transform Numeral.read
      { source := { inputPath := "in.csv" }, table := { header := false } }
      [["1", " -20 "], ["0042", "3"]]).Gives {} _ w' :=
    exists_gives_transform_iff.mpr ⟨fun hheader => absurd hheader (by decide), _, rfl, rfl⟩
  have hcolumns : (Transform.typed Numeral.read
      { source := { inputPath := "in.csv" }, table := { header := false } }
      (Table.ofRows (defaultNames 2) [["1", " -20 "], ["0042", "3"]])).table.columns =
        [⟨"column_1", .untyped ["1", "0042"]⟩, ⟨"column_2", .integer [-20, 3]⟩] := by
    decide +kernel
  let c' : Config := { source := { inputPath := "out.csv" } }
  have hheader : c'.table.header = true := rfl
  obtain ⟨text, d', v', htext, hparse, hagain⟩ :=
    transform_records_again Numeral.lawful_read .lf false (n := 2) (by decide) (by decide) rfl h
      (by simp [hcolumns]) hheader rfl {}
  exact ⟨_, w', text, d', v', h, hcolumns, htext, hparse, hagain⟩

end Delimited
