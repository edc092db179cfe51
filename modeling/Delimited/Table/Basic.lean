import Delimited.Decimal.Shortest
import Delimited.Grammar

/-!
# Tables

A table is a list of named columns with the same number of cells. The records of
a document are laid out as a table of texts, the first record naming the columns
on demand, and a table is laid out as records again, its names first.

## Main definitions

* `Cells`: the cells of a column, all of one kind.
* `Table`: named columns and the number of rows.
* `transpose`: rows from columns, and columns from rows.
* `Table.ofDocument`: the table of a document.
* `Table.records`: the records of a table.
-/

namespace Delimited

/-- The cells of a column. -/
inductive Cells where
  /-- Texts that were read and not looked at. -/
  | untyped (cells : List String)
  /-- Texts. -/
  | text (cells : List String)
  /-- Integers. -/
  | integer (cells : List Int)
  /-- Numbers, some of them missing. -/
  | real (cells : List (Option Double))
  /-- Truth values. -/
  | flag (cells : List Bool)
  deriving DecidableEq, Repr

namespace Cells

/-- The name of the kind of the cells. -/
def kind : Cells → String
  | untyped _ => "object"
  | text _ => "str"
  | integer _ => "int64"
  | real _ => "float64"
  | flag _ => "bool"

/-- The number of cells. -/
def length : Cells → Nat
  | untyped cells => cells.length
  | text cells => cells.length
  | integer cells => cells.length
  | real cells => cells.length
  | flag cells => cells.length

/-- Whether the cells are numbers. -/
def isNumeric : Cells → Bool
  | integer _ => true
  | real _ => true
  | _ => false

/-- The text of a number, which a missing one does not have. -/
def realText : Option Double → String
  | none => ""
  | some .nan => ""
  | some x => x.render .cells

/-- The texts of the cells. -/
def texts : Cells → List String
  | untyped cells => cells
  | text cells => cells
  | integer cells => cells.map toString
  | real cells => cells.map realText
  | flag cells => cells.map fun b => if b then "True" else "False"

end Cells

/-- A named column. -/
structure Column where
  /-- The name. -/
  name : String
  /-- The cells. -/
  cells : Cells
  deriving DecidableEq, Repr

/-- Columns and the number of their rows, which also a table without columns has. -/
structure Table where
  /-- The number of rows. -/
  rows : Nat
  /-- The columns, in order. -/
  columns : List Column
  deriving DecidableEq, Repr

/-- Why records make no table. -/
inductive TableError where
  /-- There are no records. -/
  | emptyDocument
  /-- Some records are wider than others. -/
  | unequalWidths
  /-- No column has the name. -/
  | unknownColumn (name : String)
  /-- There is no first record to name the columns. -/
  | noHeader
  deriving DecidableEq, Repr

/-- The wording of a table error. -/
def TableError.message : TableError → String
  | emptyDocument => "Cannot build a table from an empty document"
  | unequalWidths => "All records must have the same number of fields"
  | unknownColumn name => Text.quoted name
  | noHeader => "list index out of range"

/-- The `n` columns of some rows, or the other way round. -/
def transpose : Nat → List (List String) → List (List String)
  | 0, _ => []
  | n + 1, rows => rows.map (·.headD "") :: transpose n (rows.map List.tail)

/-- The names of columns that no record names. -/
def defaultNames (width : Nat) : List String :=
  (List.range width).map fun i => "column_" ++ toString (i + 1)

namespace Table

/-- The names of the columns. -/
def names (t : Table) : List String := t.columns.map Column.name

/-- The table with the given names and rows. -/
def ofRows (names : List String) (rows : List Record) : Table :=
  { rows := rows.length
    columns := names.zipWith (fun name cells => ⟨name, .untyped cells⟩)
      (transpose names.length rows) }

/-- The table of a document. With a header the first record names the columns. -/
def ofDocument (header : Bool) : Document → Except TableError Table
  | [] => .error .emptyDocument
  | first :: others =>
    if others.any fun r => r.length != first.length then .error .unequalWidths
    else if header then .ok (ofRows first others)
    else .ok (ofRows (defaultNames first.length) (first :: others))

/-- The names of a table, and then its rows. -/
def records (t : Table) : Document :=
  t.names :: transpose t.rows (t.columns.map fun c => c.cells.texts)

end Table

end Delimited
