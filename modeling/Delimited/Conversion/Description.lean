import Delimited.Conversion.Transform
import Delimited.Digest.Sha256

/-!
# The table that describes a table

Every column of a converted table is described by a row of a second one: where it
came from, its place, its name and kind, and when it was converted.

## Main definitions

* `Description`: what all rows have in common.
* `describe`: the describing table.
-/

namespace Delimited

/-- What all rows of a description have in common. -/
structure Description where
  /-- The settings of the conversion. -/
  config : Config
  /-- The digest of the source. -/
  digest : String
  /-- The number of records of the source. -/
  recordCount : Int
  /-- When the conversion was made. -/
  convertedAt : String
  deriving DecidableEq, Repr

namespace Description

/-- The part of the program that describes tables. -/
def component : String := "csv_combinators.meta"

/-- The digest of the source. A source that is not there has none. -/
def digestOf (inputPath : String) : Job String := do
  let p := Path.ofString inputPath
  match (← Job.files).read p with
  | .ok bytes => return Sha256.digest bytes
  | .error ⟨.notFound, _⟩ =>
    Job.report .warning component
      ("Source file not found for hashing: " ++ toString p ++ " (using empty hash)")
    return ""
  | .error e => throw (.os e)

/-- The columns of the description of a table. -/
def columns (d : Description) (t : Transformed) : List Column :=
  let n := t.header.length
  let same := fun s : String => Cells.text (List.replicate n s)
  [⟨"table_name", same d.config.table.tableName⟩,
    ⟨"source_file", same (Path.ofString d.config.source.inputPath).name⟩,
    ⟨"source_hash", same d.digest⟩,
    ⟨"encoding", same d.config.source.encoding⟩,
    ⟨"column_index", .integer ((List.range n).map Int.ofNat)⟩,
    ⟨"column_name", .text t.header⟩,
    ⟨"dtype", .text (t.table.columns.map fun c => c.cells.kind)⟩,
    ⟨"numeric", .flag (t.header.map fun name => t.numeric.contains name)⟩,
    ⟨"record_count", .integer (List.replicate n d.recordCount)⟩,
    ⟨"header", .flag (List.replicate n d.config.table.header)⟩,
    ⟨"converted_at", same d.convertedAt⟩]

/-- The description of a table. Without rows nothing is known about the kinds of
its columns. -/
def table (d : Description) (t : Transformed) : Table :=
  { rows := t.header.length
    columns := (d.columns t).map fun c =>
      if t.header = [] then { c with cells := .untyped [] } else c }

end Description

/-- Describes a table that was made at a point in time. -/
def describe (now : String) (c : Config) (t : Transformed) (recordCount : Int) : Job Table := do
  let digest ← Description.digestOf c.source.inputPath
  Job.info Description.component s!"Built _meta table: {t.header.length} rows"
  return Description.table ⟨c, digest, recordCount, now⟩ t

end Delimited
