import Delimited.Table.Number
import Delimited.Job

/-!
# From records to a table

## Main definitions

* `repeatedNames`: the names that occur more than once.
* `checkHeader`: fails if the header repeats names.
* `Transformed`: a table, its header and its number columns.
* `transform`: the table of a document under some settings.
-/

namespace Delimited

/-- The order of texts by their characters. -/
def textLe (s t : String) : Bool := decide (s ≤ t)

/-- The names that occur more than once, each once and in order. -/
def repeatedNames (names : List String) : List String :=
  ((names.filter fun name => 1 < names.count name).eraseDups).mergeSort textLe

/-- Fails if the first record names the columns and repeats a name. -/
def checkHeader (c : Config) (header : Record) : Except Failure Unit :=
  if c.table.header ∧ repeatedNames header ≠ [] then
    .error (.repeatedNames c.source.inputPath (repeatedNames header))
  else .ok ()

/-- A table and what is known about its columns. -/
structure Transformed where
  /-- The table. -/
  table : Table
  /-- The names of its columns. -/
  header : List String
  /-- The names of the columns that were found to hold numbers. -/
  numeric : List String
  deriving DecidableEq, Repr

namespace Transform

/-- The part of the program that makes tables. -/
def component : String := "csv_combinators.transforms.pipeline"

/-- Looks at the header, if there is one. -/
def header (c : Config) (document : Document) : Job Unit := do
  if c.table.header then
    match document with
    | [] => throw (.table .noHeader)
    | first :: _ =>
      Job.info component s!"Step 1/3: Validating header ({first.length} columns)"
      Job.ofExcept id (checkHeader c first)
  else Job.info component "Step 1/3: Header check SKIPPED (no header row)"

/-- Lays the records out as a table. -/
def layout (c : Config) (document : Document) : Job Table := do
  let table ← Job.ofExcept .table (Table.ofDocument c.table.header document)
  let name := c.table.tableName
  Job.info component
    s!"Step 2/3: Built table '{name}' ({table.rows} rows x {table.columns.length} cols)"
  return table

/-- Makes the number columns, if that is asked for. -/
def numbers (read : NumberReader) (c : Config) (table : Table) : Job Transformed := do
  if c.table.inferNumbers then
    let table := table.inferNumbers read
    let numeric := table.numericNames
    Job.info component s!"Step 3/3: Inferred {numeric.length} numeric column(s)"
    return ⟨table, table.names, numeric⟩
  else
    Job.info component "Step 3/3: Number inference SKIPPED (disabled in config)"
    return ⟨table, table.names, []⟩

end Transform

/-- The table of a document under some settings. -/
def transform (read : NumberReader) (c : Config) (document : Document) : Job Transformed := do
  Transform.header c document
  let table ← Transform.layout c document
  Transform.numbers read c table

end Delimited
