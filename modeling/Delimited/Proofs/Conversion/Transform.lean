import Delimited.Conversion.Transform
import Delimited.Proofs.Job
import Delimited.Proofs.Table.Layout

/-!
# What a table is made of

Making the table of a document needs two things only: the names of the columns are
not repeated, and the records have one width. The rest is a function of the
records, so two runs on the same records give the same table, and a table of texts
has the records it was made of.

## Main definitions

* `Transform.typed`: a table with or without its number columns.

## Main results

* `exists_gives_transform_iff`: when a table is made of a document, and which.
* `Table.records_of_ofDocument`: the records of a table of texts.
-/

namespace Delimited

variable {read : NumberReader} {c : Config} {d : Document} {table : Table} {t : Transformed}
  {w w' : World}

namespace Transform

/-- A table with its number columns, if the settings ask for them. -/
def typed (read : NumberReader) (c : Config) (table : Table) : Transformed :=
  if c.table.inferNumbers then
    let numbers := table.inferNumbers read
    ⟨numbers, numbers.names, numbers.numericNames⟩
  else ⟨table, table.names, []⟩

theorem isQuery_header (c : Config) (d : Document) : (header c d).IsQuery := by
  unfold header
  split
  · split
    · exact Job.isQuery_throw _
    · exact (Job.isQuery_info _ _).bind fun _ => Job.isQuery_ofExcept _ _
  · exact Job.isQuery_info _ _

theorem isQuery_layout (c : Config) (d : Document) : (layout c d).IsQuery :=
  (Job.isQuery_ofExcept _ _).bind fun _ => (Job.isQuery_info _ _).bind fun _ => Job.isQuery_pure _

theorem isQuery_numbers (read : NumberReader) (c : Config) (table : Table) :
    (numbers read c table).IsQuery := by
  unfold numbers
  split
  · exact (Job.isQuery_info _ _).bind fun _ => Job.isQuery_pure _
  · exact (Job.isQuery_info _ _).bind fun _ => Job.isQuery_pure _

/-- The header passes if it is not looked at, or names every column once. -/
theorem exists_gives_header_iff {u : Unit} :
    (∃ w', (header c d).Gives w u w') ↔
      (c.table.header = true → ∃ first others, d = first :: others ∧ repeatedNames first = []) := by
  unfold header
  cases hheader : c.table.header with
  | false => simp [Job.info, Job.report]
  | true =>
    cases d with
    | nil => simp
    | cons first others =>
      by_cases hrepeated : repeatedNames first = [] <;>
        simp [Job.info, Job.report, checkHeader, hheader, hrepeated]

theorem exists_gives_layout_iff :
    (∃ w', (layout c d).Gives w table w') ↔ Table.ofDocument c.table.header d = .ok table := by
  simp only [layout, Job.gives_bind_iff, Job.gives_ofExcept_iff, Job.info, Job.report,
    Job.gives_modify_iff, Job.gives_pure_iff]
  constructor
  · rintro ⟨_, _, _, ⟨htable, rfl⟩, _, _, rfl, rfl, rfl⟩
    exact htable
  · intro htable
    exact ⟨_, _, _, ⟨htable, rfl⟩, (), _, rfl, rfl, rfl⟩

theorem exists_gives_numbers_iff :
    (∃ w', (numbers read c table).Gives w t w') ↔ t = typed read c table := by
  unfold numbers typed
  split
  all_goals
    simp only [Job.gives_bind_iff, Job.info, Job.report, Job.gives_modify_iff, Job.gives_pure_iff]
    constructor
    · rintro ⟨_, _, _, rfl, rfl, rfl⟩
      rfl
    · rintro rfl
      exact ⟨_, (), _, rfl, rfl, rfl⟩

end Transform

theorem isQuery_transform (read : NumberReader) (c : Config) (d : Document) :
    (transform read c d).IsQuery :=
  (Transform.isQuery_header c d).bind fun _ => (Transform.isQuery_layout c d).bind fun table =>
    Transform.isQuery_numbers read c table

/-- A table is made of a document when the names that are looked at are not repeated
and the records make a table. -/
theorem exists_gives_transform_iff :
    (∃ w', (transform read c d).Gives w t w') ↔
      (c.table.header = true → ∃ first others, d = first :: others ∧ repeatedNames first = []) ∧
        ∃ table, Table.ofDocument c.table.header d = .ok table ∧
          t = Transform.typed read c table := by
  simp only [transform, Job.gives_bind_iff]
  constructor
  · rintro ⟨w', _, w₁, hheader, table, w₂, hlayout, hnumbers⟩
    exact ⟨Transform.exists_gives_header_iff.mp ⟨w₁, hheader⟩, table,
      Transform.exists_gives_layout_iff.mp ⟨w₂, hlayout⟩,
      Transform.exists_gives_numbers_iff.mp ⟨w', hnumbers⟩⟩
  · rintro ⟨hnames, table, htable, ht⟩
    obtain ⟨w₁, hheader⟩ := Transform.exists_gives_header_iff.mpr hnames
    obtain ⟨w₂, hlayout⟩ := Transform.exists_gives_layout_iff.mpr htable
    obtain ⟨w', hnumbers⟩ := Transform.exists_gives_numbers_iff.mpr ht
    exact ⟨w', (), w₁, hheader, table, w₂, hlayout, hnumbers⟩

namespace Table

variable {header : Bool} {n : Nat}

@[simp] theorem length_defaultNames (n : Nat) : (defaultNames n).length = n := by
  simp [defaultNames]

/-- Records of one width make a table, named by the first of them on demand. -/
theorem ofDocument_cons_eq_ok_iff {first : Record} {others : List Record} :
    ofDocument header (first :: others) = .ok table ↔
      (∀ r ∈ others, r.length = first.length) ∧
        table = if header then ofRows first others
          else ofRows (defaultNames first.length) (first :: others) := by
  rw [ofDocument]
  by_cases hwidth : ∀ r ∈ others, r.length = first.length
  · have hsame : (others.any fun r => r.length != first.length) = false := by simpa using hwidth
    rw [and_iff_right hwidth, if_neg (by simp [hsame])]
    cases header <;> simp [eq_comm]
  · have hother : (others.any fun r => r.length != first.length) = true := by simpa using hwidth
    simp only [hother, hwidth, if_true, reduceCtorEq, false_and]

/-- A table of texts has the records it was made of, after its names if it was
given them. -/
theorem records_of_ofDocument (h : ofDocument header d = .ok table) :
    table.records = if header then d else defaultNames (d.headD []).length :: d := by
  cases d with
  | nil => simp [ofDocument] at h
  | cons first others =>
    obtain ⟨hwidth, rfl⟩ := ofDocument_cons_eq_ok_iff.mp h
    cases header with
    | true => exact records_ofRows hwidth
    | false =>
      refine records_ofRows fun r hr => ?_
      rw [length_defaultNames]
      rcases List.mem_cons.mp hr with rfl | hr
      · rfl
      · exact hwidth r hr

/-- A table is as wide as the records it was made of. -/
theorem length_columns_of_ofDocument (h : ofDocument header d = .ok table) :
    table.columns.length = (d.headD []).length := by
  cases d with
  | nil => simp [ofDocument] at h
  | cons first others =>
    obtain ⟨-, rfl⟩ := ofDocument_cons_eq_ok_iff.mp h
    rw [← length_names]
    cases header <;> simp

theorem one_le_length_columns_of_ofDocument (hn : 1 ≤ n) (hwidth : ∀ r ∈ d, r.length = n)
    (h : ofDocument header d = .ok table) : 1 ≤ table.columns.length := by
  rw [length_columns_of_ofDocument h]
  cases d with
  | nil => simp [ofDocument] at h
  | cons first others => rwa [List.headD_cons, hwidth first (by simp)]

end Table

end Delimited
