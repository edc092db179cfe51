import Delimited.Table.Basic
import Mathlib.Data.List.Basic

/-!
# Rows and columns

Rows of one width are laid out as columns and the columns as rows again without
loss, so a table made of some names and rows has these as its records. Every
record of a table is as wide as the table, and has the text of a cell in the place
of that cell.

## Main results

* `transpose_transpose`: rows of one width, laid out twice.
* `Table.length_of_mem_records`: the width of the records of a table.
* `Table.field?_records`: the fields of the records of a table.
* `Table.records_ofRows`: the records of a table made of names and rows.
-/

namespace Delimited

section Transpose

variable {n i : Nat} {rows : List (List String)}

@[simp] theorem length_transpose (n : Nat) (rows : List (List String)) :
    (transpose n rows).length = n := by
  induction n generalizing rows with
  | zero => rfl
  | succ n ih => simp [transpose, ih]

/-- A column holds the entries of the rows in its place. -/
theorem getElem?_transpose (h : i < n) :
    (transpose n rows)[i]? = some (rows.map fun r => r[i]?.getD "") := by
  induction n generalizing i rows with
  | zero => exact absurd h (Nat.not_lt_zero i)
  | succ n ih =>
    cases i with
    | zero =>
      have hhead : (fun r : List String => r.headD "") = fun r => r[0]?.getD "" := by
        funext r
        cases r <;> rfl
      rw [transpose, List.getElem?_cons_zero, hhead]
    | succ i =>
      rw [transpose, List.getElem?_cons_succ, ih (Nat.lt_of_succ_lt_succ h), List.map_map]
      simp [Function.comp_def]

theorem length_of_mem_transpose {r : List String} (h : r ∈ transpose n rows) :
    r.length = rows.length := by
  obtain ⟨i, hi⟩ := List.mem_iff_getElem?.mp h
  have hlt : i < n := by
    have hi' := (List.getElem?_eq_some_iff.mp hi).1
    rwa [length_transpose] at hi'
  rw [getElem?_transpose hlt, Option.some.injEq] at hi
  rw [← hi, List.length_map]

/-- Rows of one width are their own columns' rows. -/
theorem transpose_transpose (h : ∀ r ∈ rows, r.length = n) :
    transpose rows.length (transpose n rows) = rows := by
  -- Entry by entry; past the last row and past the width there are none on either side.
  refine List.ext_getElem? fun i => ?_
  by_cases hi : i < rows.length
  · rw [getElem?_transpose hi, List.getElem?_eq_getElem hi, Option.some.injEq]
    have hwidth : rows[i].length = n := h _ (List.getElem_mem hi)
    refine List.ext_getElem? fun j => ?_
    by_cases hj : j < n
    · rw [List.getElem?_map, getElem?_transpose hj]
      simp [hi, hwidth, hj]
    · rw [List.getElem?_eq_none (by simpa using hj), List.getElem?_eq_none (by omega)]
  · rw [List.getElem?_eq_none (by simpa using hi), List.getElem?_eq_none (by simpa using hi)]

end Transpose

/-- The field in a place of a record of a document. -/
def Document.field? (d : Document) (r i : Nat) : Option String :=
  d[r]?.bind fun record => record[i]?

namespace Table

variable {t : Table} {names : List String} {rows : List Record} {i r : Nat}

@[simp] theorem length_names (t : Table) : t.names.length = t.columns.length := by simp [names]

theorem records_ne_nil (t : Table) : t.records ≠ [] := by simp [records]

/-- Every record of a table is as wide as the table. -/
theorem length_of_mem_records {record : Record} (h : record ∈ t.records) :
    record.length = t.columns.length := by
  rcases List.mem_cons.mp h with rfl | h
  · exact length_names t
  · simpa using length_of_mem_transpose h

/-- Below the names, the records hold the texts of the cells. -/
theorem field?_records {column : Column} (hcolumn : t.columns[i]? = some column)
    (hr : r < t.rows) :
    t.records.field? (r + 1) i = some (column.cells.texts[r]?.getD "") := by
  rw [Document.field?, records, List.getElem?_cons_succ, getElem?_transpose hr]
  simp [hcolumn]

/-- A number that is missing is an empty field. -/
theorem field?_records_missing {name : String} {cells : List (Option Double)}
    (hcolumn : t.columns[i]? = some ⟨name, .real cells⟩) (hr : r < t.rows)
    (hmissing : cells[r]? = some none) : t.records.field? (r + 1) i = some "" := by
  rw [field?_records hcolumn hr]
  simp [Cells.texts, hmissing, Cells.realText]

theorem columns_ofRows (names : List String) (rows : List Record) :
    (ofRows names rows).columns =
      (names.zip (transpose names.length rows)).map fun x => ⟨x.1, .untyped x.2⟩ := by
  rw [ofRows, ← List.map_uncurry_zip_eq_zipWith]
  rfl

@[simp] theorem names_ofRows (names : List String) (rows : List Record) :
    (ofRows names rows).names = names := by
  rw [Table.names, columns_ofRows, List.map_map]
  exact List.map_fst_zip (by simp)

/-- The records of a table made of names and rows of that width are these. -/
theorem records_ofRows (h : ∀ row ∈ rows, row.length = names.length) :
    (ofRows names rows).records = names :: rows := by
  have htexts : ((ofRows names rows).columns.map fun c => c.cells.texts) =
      transpose names.length rows := by
    rw [columns_ofRows, List.map_map]
    exact List.map_snd_zip (by simp)
  rw [records, names_ofRows, htexts]
  exact congrArg (names :: ·) (transpose_transpose h)

end Table

end Delimited
