import Delimited.Decimal.Double
import Delimited.Table.Basic
import Delimited.Text.Blank

/-!
# Number columns

A column of texts becomes a column of numbers when that loses nothing: every
cell that is not blank is a number, none of them is filled with zeros on the
left, and none is an integer too long for a double. Blank cells are missing, and
do not decide. Any other column stays as it is.

Which cells are numbers, and which ones, is up to a reader that comes from
outside.

## Main definitions

* `Number`, `NumberReader`: numbers, and how cells are read as numbers.
* `isCode`: whether a cell only looks like a number.
* `Cells.infer`: the number cells of some texts.
* `Cells.shown`: the texts of the cells as they are looked at.
* `Table.inferNumbers`: the table with its number columns.
-/

namespace Delimited

/-- A number that was read from a cell. -/
structure Number where
  /-- The integer, if the number is written as one. -/
  integer? : Option Int
  /-- The number as a double. -/
  double : Double
  /-- It is a number. -/
  double_ne_nan : double ≠ .nan
  deriving DecidableEq

/-- How cells are read as numbers. Each cell is judged by itself, and one that is
no number gives `none`. -/
abbrev NumberReader := List Char → Option Number

/-- The number of a cell without the blanks around it. A blank cell is not read. -/
def NumberReader.cell (read : NumberReader) (cs : List Char) : Option Number :=
  if cs = [] then none else read cs

/-- A sign, if there is one, and what follows. -/
def splitSign : List Char → Bool × List Char
  | '-' :: cs => (true, cs)
  | '+' :: cs => (false, cs)
  | cs => (false, cs)

/-- The length from which an integer does not survive as a double. -/
def longInteger : Nat := 16

/-- Whether the characters start like a number filled with zeros, or are an
integer that is too long. Such cells are codes and not numbers. -/
def isCode (cs : List Char) : Bool :=
  let digits := (splitSign cs).2
  (match digits with
    | '0' :: c :: _ => c.isDigit
    | _ => false) ||
  (decide (longInteger ≤ digits.length) && digits.all Char.isDigit)

/-- The number cells of some texts, if they are numbers. They are integers when
none is missing and all are written as integers. -/
def Cells.infer (read : NumberReader) (texts : List String) : Option Cells :=
  let cells := texts.map fun s => Text.stripChars s.toList
  let present := cells.filter (· ≠ [])
  if present = [] ∨ present.any isCode then none
  else (present.mapM read.cell).map fun numbers =>
    match numbers.mapM Number.integer? with
    | some integers =>
      if present.length = cells.length then .integer integers
      else .real (cells.map fun cs => (read.cell cs).map Number.double)
    | none => .real (cells.map fun cs => (read.cell cs).map Number.double)

/-- The texts of the cells as they are looked at for numbers. A missing number is
shown, so that it is not taken for a blank cell. -/
def Cells.shown : Cells → List String
  | .real cells => cells.map fun x => (x.getD .nan).render .cells
  | cells => cells.texts

/-- The column with its numbers, if its cells are shown as numbers. -/
def Column.infer (read : NumberReader) (c : Column) : Column :=
  { c with cells := (Cells.infer read c.cells.shown).getD c.cells }

namespace Table

/-- The table with the numbers of the column with a name. -/
def inferColumn (read : NumberReader) (t : Table) (name : String) : Except TableError Table :=
  if t.names.contains name then
    .ok { t with columns := t.columns.map fun c => if c.name = name then c.infer read else c }
  else .error (.unknownColumn name)

/-- The table with the numbers of the columns with the given names, in turn. -/
def inferNamed (read : NumberReader) (t : Table) (names : List String) :
    Except TableError Table :=
  names.foldlM (inferColumn read) t

/-- The table with the numbers of all its columns. -/
def inferNumbers (read : NumberReader) (t : Table) : Table :=
  { t with columns := t.columns.map (Column.infer read) }

/-- The names of the columns that hold numbers. -/
def numericNames (t : Table) : List String :=
  (t.columns.filter fun c => c.cells.isNumeric).map Column.name

end Table

end Delimited
