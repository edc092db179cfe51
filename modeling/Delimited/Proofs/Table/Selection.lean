import Delimited.Proofs.Table.Inference

/-!
# Some columns of a table

The columns of a table are converted one after another, and each step looks at the table
that the steps before it left. As long as no name is given twice, nothing of this shows in
the result, and each column is converted as if it were alone. A column that is named again
is shown as the numbers that it holds. If doubles are read back, it is found again, so that
the names count as a set. Otherwise a name that is given twice may change a column twice.

## Main definitions

* `Table.Selects`: a table of which some columns were converted.
* `NumberReader.change`: a reader that reads one text as another number.

## Main results

* `Table.exists_inferNamed_selects`: names that are not repeated, whatever the reader.
* `Table.inferNamed_eq_error`: the first name that no column has is reported.
* `inferNamed_selects`: what becomes of a table and a list of names.
* `inferNamed_twice_ne`: without doubles that are read back, repetitions count.
-/

namespace Delimited

variable {read : NumberReader}

namespace Table

variable {t u : Table} {names : List String} {name : String}

/-- `u` is the table `t` with the columns of the given names converted and all others as
they were. -/
structure Selects (read : NumberReader) (t : Table) (names : List String) (u : Table) :
    Prop where
  rows_eq : u.rows = t.rows
  names_eq : u.names = t.names
  selected : ∀ (i : Nat) (column : Column), t.columns[i]? = some column → column.name ∈ names →
    u.columns[i]? = (t.inferNumbers read).columns[i]?
  kept : ∀ (i : Nat) (column : Column), t.columns[i]? = some column → column.name ∉ names →
    u.columns[i]? = some column

theorem selects_inferAt (read : NumberReader) (t : Table) (names : List String) :
    t.Selects read names (t.inferAt read names) where
  rows_eq := rfl
  names_eq := t.names_inferAt read names
  selected i column hcolumn hname := by
    rw [inferAt, inferNumbers, List.getElem?_map, List.getElem?_map, hcolumn, Option.map_some,
      Option.map_some, if_pos hname]
  kept i column hcolumn hname := by
    rw [inferAt, List.getElem?_map, hcolumn, Option.map_some, if_neg hname]

/-- The named columns are converted and no others, if none is named twice or doubles are
read back. -/
theorem exists_inferNamed_selects (hread : read.Lawful) (h : ∀ name ∈ names, name ∈ t.names)
    (hagain : names.Nodup ∨ read.ReadsBack) :
    ∃ u, t.inferNamed read names = .ok u ∧ t.Selects read names u :=
  ⟨_, inferNamed_eq hread h hagain, t.selects_inferAt read names⟩

/-- Only which names are given counts, and not their order or how often they are given. -/
theorem inferAt_congr {names' : List String} (h : ∀ name, name ∈ names ↔ name ∈ names') :
    t.inferAt read names = t.inferAt read names' := by
  simp only [inferAt, h]

theorem inferNamed_append (read : NumberReader) (t : Table) (first second : List String) :
    t.inferNamed read (first ++ second) =
      t.inferNamed read first >>= fun u => u.inferNamed read second :=
  List.foldlM_append

theorem inferColumn_eq_error (h : name ∉ t.names) :
    t.inferColumn read name = .error (.unknownColumn name) := by
  rw [inferColumn, if_neg (by simpa using h)]

/-- The columns before the first name that no column has are converted, and then it is
reported. -/
theorem inferNamed_eq_error (h : names.find? (· ∉ t.names) = some name) :
    t.inferNamed read names = .error (.unknownColumn name) := by
  induction names generalizing t with
  | nil => cases h
  | cons first names ih =>
    change t.inferColumn read first >>= (fun u => u.inferNamed read names) = _
    by_cases hfirst : first ∈ t.names
    · -- The step keeps the names, so the same name is the first one to be missed.
      rw [List.find?_cons_of_neg (by simpa using hfirst)] at h
      rw [inferColumn_eq hfirst]
      exact ih (by simpa using h)
    · rw [List.find?_cons_of_pos (by simpa using hfirst), Option.some.injEq] at h
      rw [← h, inferColumn_eq_error hfirst]
      rfl

end Table

namespace NumberReader

variable {cs : List Char} {x : Number}

/-- The reader that reads one text as another number. -/
def change (read : NumberReader) (cs : List Char) (x : Number) : NumberReader :=
  fun ds => if ds = cs then some x else read ds

/-- Columns can rely on a reader whatever it reads a decimal as. -/
theorem Lawful.change (hread : read.Lawful) (hascii : ∀ c ∈ cs, c.toNat < 128)
    (hdenotes : ∀ z, ¬ Denotes cs z) (hinteger : x.integer? = none) (hnan : cs ≠ "nan".toList) :
    (read.change cs x).Lawful where
  integer := by
    intro ds z hds hshort
    have hne : ds ≠ cs := by
      rintro rfl
      exact hdenotes z hds
    rw [NumberReader.change, if_neg hne]
    exact hread.integer hds hshort
  denotes := by
    intro ds y z hy hz
    rw [NumberReader.change] at hy
    split at hy
    · cases hy
      rw [hinteger] at hz
      cases hz
    · exact hread.denotes hy hz
  ascii := by
    intro ds y hy
    rw [NumberReader.change] at hy
    split at hy
    · rename_i heq
      exact heq ▸ hascii
    · exact hread.ascii hy
  nan := by
    rw [NumberReader.change, if_neg hnan.symm]
    exact hread.nan

end NumberReader

/-- A column of doubles that are not read back may change when it is named twice. -/
theorem inferNamed_twice_ne :
    ∃ (read : NumberReader) (t : Table), read.Lawful ∧
      t.inferNamed read ["size", "size"] ≠ t.inferNamed read ["size"] := by
  -- What is written for the largest double below `10 ^ 36` is read as `10 ^ 36`.
  let text := (Double.ofDecimal false 9999999999999999 20).render .cells
  have hrender : text = "9.999999999999999e+35" := by decide +kernel
  refine ⟨Numeral.read.change text.toList
    ⟨none, .ofDecimal false 1 36, Double.ofDecimal_ne_nan _ _ _⟩,
    ⟨1, [⟨"size", .untyped ["9999999999999999e20"]⟩]⟩, ?_, ?_⟩
  · refine Numeral.lawful_read.change ?_ (Double.not_denotes_render _) rfl ?_
    · simp [hrender]
    · simp [hrender]
  · decide +kernel

end Delimited
