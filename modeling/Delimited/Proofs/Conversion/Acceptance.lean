import Delimited.Proofs.Conversion.Description
import Delimited.Proofs.Effects
import Delimited.Proofs.Grammar.Shape
import Mathlib.Data.String.Basic

/-!
# Documents that make a table

A document that was read makes a table, whatever the settings, unless its header repeats a
name. The other reasons for which a table is not made do not occur: the grammar leaves a
first record and one width, and names that are made up are all different.

## Main definitions

* `Transformed.MadeOf`: what is true of the table of a document.

## Main results

* `sorted_repeatedNames`: the repeated names are in order, each once.
* `failsOnly_transform`: why no table is made of records of one width.
* `transform_accepts_parsed`: the documents that make a table, and those that do not.
-/

namespace Delimited

variable {read : NumberReader} {c : Config} {d : Document} {first : Record}
  {others : List Record} {t : Transformed} {w w' : World}

/-! ### Repeated names -/

theorem nodup_eraseDups (names : List String) : names.eraseDups.Nodup := by
  generalize hn : names.length = n
  -- The induction is on the length, since the names after the first are filtered.
  induction n using Nat.strongRecOn generalizing names with
  | _ n ih =>
    cases names with
    | nil => simp
    | cons name names =>
      have hshorter : (names.filter fun other => !other == name).length < n := by
        have := List.length_filter_le (fun other => !other == name) names
        rw [List.length_cons] at hn
        omega
      rw [List.eraseDups_cons, List.nodup_cons]
      refine ⟨fun hmem => ?_, ih _ hshorter _ rfl⟩
      simpa using (List.mem_filter.mp (List.mem_eraseDups.mp hmem)).2

theorem sorted_repeatedNames (names : List String) : (repeatedNames names).Pairwise (· < ·) := by
  have hle : (repeatedNames names).Pairwise fun s t => textLe s t = true := by
    refine List.pairwise_mergeSort (fun a b c hab hbc => ?_) (fun a b => ?_) _
    · exact decide_eq_true (le_trans (of_decide_eq_true hab) (of_decide_eq_true hbc))
    · simpa [textLe] using le_total a b
  have hne : (repeatedNames names).Pairwise (· ≠ ·) :=
    (List.mergeSort_perm _ _).nodup_iff.mpr (nodup_eraseDups _)
  exact hle.imp₂ (fun s t hle hne => lt_of_le_of_ne (of_decide_eq_true hle) hne) hne

/-! ### Documents without a table -/

/-- No table is made of records of one width if they are under a header with repeated
names, and for no other reason. -/
theorem failsOnly_transform (read : NumberReader) (c : Config)
    (hwidth : ∀ r ∈ others, r.length = first.length) :
    (transform read c (first :: others)).FailsOnly fun e =>
      c.table.header = true ∧ repeatedNames first ≠ [] ∧
        e = .repeatedNames c.source.inputPath (repeatedNames first) := by
  refine Job.FailsOnly.bind ?_ fun _ => Job.FailsOnly.bind ?_ fun table => ?_
  · unfold Transform.header
    split
    · refine (Job.failsOnly_info _ _).bind fun _ => Job.failsOnly_ofExcept fun e he => ?_
      unfold checkHeader at he
      split at he
      · rename_i hrepeated
        cases he
        exact ⟨hrepeated.1, hrepeated.2, rfl⟩
      · cases he
    · exact Job.failsOnly_info _ _
  · refine (Job.failsOnly_ofExcept fun e he => ?_).bind fun _ =>
      (Job.failsOnly_info _ _).bind fun _ => Job.failsOnly_pure _
    rw [Table.ofDocument_cons_eq_ok_iff.mpr ⟨hwidth, rfl⟩] at he
    cases he
  · unfold Transform.numbers
    split
    · exact (Job.failsOnly_info _ _).bind fun _ => Job.failsOnly_pure _
    · exact (Job.failsOnly_info _ _).bind fun _ => Job.failsOnly_pure _

/-- A table is made of records of one width if no name of a header is repeated. -/
theorem exists_gives_transform (hwidth : ∀ r ∈ others, r.length = first.length)
    (hnames : c.table.header = true → repeatedNames first = []) :
    ∃ t w', (transform read c (first :: others)).Gives w t w' := by
  refine ⟨_, exists_gives_transform_iff.mpr ⟨fun hheader => ?_, _,
    Table.ofDocument_cons_eq_ok_iff.mpr ⟨hwidth, rfl⟩, rfl⟩⟩
  exact ⟨first, others, rfl, hnames hheader⟩

/-! ### Documents with a table -/

/-- What is true of the table of a document. -/
structure Transformed.MadeOf (c : Config) (first : Record) (others : List Record)
    (t : Transformed) : Prop where
  header_eq : t.header = t.table.names
  nodup : t.header.Nodup
  width_eq : t.header.length = first.length
  rows_eq : t.table.rows = if c.table.header then others.length else (first :: others).length
  /-- The numeric columns are named in the order of the header. -/
  sublist : t.numeric.Sublist t.header
  mem_numeric_iff : ∀ column ∈ t.table.columns,
    (column.name ∈ t.numeric ↔ column.cells.isNumeric = true)
  numeric_eq_nil : c.table.inferNumbers = false → t.numeric = []

theorem madeOf_of_gives_transform (h : (transform read c (first :: others)).Gives w t w') :
    t.MadeOf c first others := by
  have hlength := length_of_gives_transform h
  obtain ⟨-, table, htable, ht⟩ := exists_gives_transform_iff.mp ⟨_, h⟩
  refine {
    header_eq := header_of_gives_transform h
    nodup := header_of_gives_transform h ▸ nodup_names_of_gives_transform h
    width_eq := ?_
    rows_eq := ?_
    sublist := ?_
    mem_numeric_iff := fun column => mem_numeric_iff_of_gives_transform h
    numeric_eq_nil := fun hoff => ?_ }
  · rw [header_of_gives_transform h, ht, Transform.names_typed, Table.length_names,
      Table.length_columns_of_ofDocument htable, List.headD_cons]
  · rw [List.length_cons] at hlength ⊢
    split
    · rename_i hheader
      rw [if_pos hheader] at hlength
      omega
    · rename_i hheader
      rw [if_neg hheader] at hlength
      omega
  · rw [ht, Transform.typed]
    split
    · exact List.filter_sublist.map _
    · exact List.nil_sublist _
  · rw [ht, Transform.typed, if_neg (by simp [hoff])]

/-! ### Documents that were read -/

/-- A document that was read makes a table unless its header repeats a name, and then the
repeated names are reported in order. -/
theorem transform_accepts_parsed {v rest : View}
    (hparse : parseDocument v = .ok (.success rest d)) (read : NumberReader) (c : Config)
    (w : World) :
    ∃ first others, d = first :: others ∧
      ((∃ e w', (transform read c d).Fails w e w') ↔
        c.table.header = true ∧ ∃ name, 2 ≤ first.count name) ∧
      (∀ e w', (transform read c d).Fails w e w' →
        ∃ names, e = .repeatedNames c.source.inputPath names ∧ names.Pairwise (· < ·) ∧
          (∀ name, name ∈ names ↔ 2 ≤ first.count name) ∧
          e.message = "Header of " ++ c.source.inputPath ++ " repeats column names: " ++
            Text.quotedList names ++
            "\nRename the columns or set 'table.header: false' in the config.") ∧
      (¬ (c.table.header = true ∧ ∃ name, 2 ≤ first.count name) →
        ∃ t w', (transform read c d).Gives w t w' ∧ t.MadeOf c first others) := by
  obtain ⟨first, others, rfl, hwidth⟩ := Grammar.rectangular_of_parseDocument hparse
  have hfails := failsOnly_transform read c hwidth
  have hrepeated : (∃ name, 2 ≤ first.count name) ↔ repeatedNames first ≠ [] := by
    simp only [← mem_repeatedNames_iff]
    refine ⟨?_, List.exists_mem_of_ne_nil _⟩
    rintro ⟨name, hmem⟩
    exact List.ne_nil_of_mem hmem
  have haccepted (hnames : ¬ (c.table.header = true ∧ ∃ name, 2 ≤ first.count name)) :
      ∃ t w', (transform read c (first :: others)).Gives w t w' := by
    refine exists_gives_transform hwidth fun hheader => ?_
    by_contra hne
    exact hnames ⟨hheader, hrepeated.mpr hne⟩
  refine ⟨first, others, rfl, ⟨?_, ?_⟩, ?_, ?_⟩
  · rintro ⟨e, w', h⟩
    obtain ⟨hheader, hne, -⟩ := hfails w e w' h
    exact ⟨hheader, hrepeated.mpr hne⟩
  · rintro ⟨hheader, hname⟩
    -- If the job gave a table, the names would not be repeated.
    cases hresult : ((transform read c (first :: others)).outcome w).1 with
    | error e => exact ⟨e, _, Job.fails_of_outcome hresult⟩
    | ok t =>
      obtain ⟨hnames, -⟩ := exists_gives_transform_iff.mp ⟨_, Job.gives_of_outcome hresult⟩
      obtain ⟨_, _, ⟨⟩, hnil⟩ := hnames hheader
      exact absurd hnil (hrepeated.mp hname)
  · intro e w' h
    obtain ⟨-, -, rfl⟩ := hfails w e w' h
    exact ⟨_, rfl, sorted_repeatedNames first, fun name => mem_repeatedNames_iff, rfl⟩
  · intro hnames
    obtain ⟨t, w', h⟩ := haccepted hnames
    exact ⟨t, w', h, madeOf_of_gives_transform h⟩

/-- Two repeated names under a header, and the same records without one. -/
theorem transform_accepts_parsed_repeated :
    let d : Document := [["b", "a", "b", "a", "c"], ["1", "", "x", "4", "5"]]
    parseDocument (.ofString "b,a,b,a,c\n1,,x,4,5\n") =
        .ok (.success (.ofString "b,a,b,a,c\n1,,x,4,5\n" 19) d) ∧
      (∃ names w', (transform Numeral.read { source := { inputPath := "in.csv" } } d).Fails {}
          (.repeatedNames "in.csv" names) w' ∧
        names.Pairwise (· < ·) ∧ "a" ∈ names ∧ "b" ∈ names ∧ "c" ∉ names) ∧
      ∃ t w', (transform Numeral.read
          { source := { inputPath := "in.csv" }, table := { header := false } } d).Gives {} t w' ∧
        t.header.Nodup ∧ t.header.length = 5 ∧ t.table.rows = 2 := by
  intro d
  have hparse : parseDocument (.ofString "b,a,b,a,c\n1,,x,4,5\n") =
      .ok (.success (.ofString "b,a,b,a,c\n1,,x,4,5\n" 19) d) := by
    decide +kernel
  refine ⟨hparse, ?_, ?_⟩
  · obtain ⟨_, _, hd, hiff, hreported, -⟩ :=
      transform_accepts_parsed hparse Numeral.read { source := { inputPath := "in.csv" } } {}
    obtain ⟨rfl, rfl⟩ := List.cons.inj hd
    obtain ⟨e, w', h⟩ := hiff.mpr ⟨rfl, "a", by decide⟩
    obtain ⟨names, rfl, hsorted, hmem, -⟩ := hreported e w' h
    exact ⟨names, w', h, hsorted, (hmem "a").mpr (by decide), (hmem "b").mpr (by decide),
      fun hc => absurd ((hmem "c").mp hc) (by decide)⟩
  · obtain ⟨_, _, hd, -, -, hmade⟩ := transform_accepts_parsed hparse Numeral.read
      { source := { inputPath := "in.csv" }, table := { header := false } } {}
    obtain ⟨rfl, rfl⟩ := List.cons.inj hd
    obtain ⟨t, w', h, ht⟩ := hmade fun hheader => Bool.false_ne_true hheader.1
    exact ⟨t, w', h, ht.nodup, ht.width_eq, ht.rows_eq⟩

end Delimited
