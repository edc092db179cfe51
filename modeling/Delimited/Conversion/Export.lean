import Delimited.Conversion.TableStore
import Delimited.Job

/-!
# Writing tables to files

A table goes to a file that is named after it, and its description to a second
file next to it. Delimited text is written in the encoding and with the line ends
of the settings; a file that cannot be encoded is left empty. Stored tables are
written by a store.

## Main definitions

* `Export.text`: the text of a table.
* `Export.write`: writes one file.
* `exportInto`: writes a table and its description, after a job that makes the
  directory.
* `exportTable`: writes a table and its description.
-/

namespace Delimited

namespace Export

/-- The part of the program that writes tables. -/
def component : String := "csv_combinators.export"

/-- The text of a table under some settings. -/
def text (output : Config.Output) (t : Table) : Except ExportCause String :=
  match output.terminator with
  | .other name => .error (.terminator name)
  | .known b => (formatDocument t.records b).mapError .write

/-- Puts a file at a path. -/
def put (p : Path) (e : Entry) (files : FileTree) : Except ExportCause FileTree :=
  (files.store p e).mapError .os

/-- The bytes of a text in a named encoding. -/
def encode (name text : String) : Except ExportCause (List UInt8) :=
  match Encoding.ofName? name with
  | none => .error (.encoding name)
  | some e => (e.encode text).mapError .unencodable

/-- Writes a table as delimited text. The file is made before its bytes are
known. -/
def writeText (output : Config.Output) (t : Table) (p : Path) (files : FileTree) :
    FileTree × Option ExportCause :=
  match text output t with
  | .error e => (files, some e)
  | .ok s =>
    match put p (.file []) files with
    | .error e => (files, some e)
    | .ok made =>
      match encode output.encoding s with
      | .error e => (made, some e)
      | .ok bytes =>
        match put p (.file bytes) made with
        | .error e => (made, some e)
        | .ok filled => (filled, none)

/-- Keeps what became of the files, and fails if a file was not written. -/
def finish (file : String) (format : Format) (written : FileTree × Option ExportCause) :
    Job Unit := do
  modify fun w => { w with files := written.1 }
  match written.2 with
  | none => pure ()
  | some cause => throw (.notExported file format cause)

/-- Writes a table to a file in the format of the settings. -/
def write (store : TableStore) (output : Config.Output) (t : Table) (p : Path) : Job Unit := do
  match output.format with
  | .csv => finish p.name .csv (writeText output t p (← Job.files))
  | .parquet => finish p.name .parquet (store.write t p (← Job.files))
  | .other name => throw (.unsupportedFormat name)

end Export

/-- The name of the table that describes another one. -/
def descriptionName : String := "_meta"

/-- Writes a table and its description to the directory of the settings, which
a job makes on demand. What this job fails with is passed on as it is. Gives the
paths of the files. -/
def exportInto (makeDirs : Path → Job Unit) (store : TableStore) (name : String) (t : Table)
    (description : Option Table) (output : Config.Output) : Job (List String) := do
  let out := Path.ofString output.dir
  makeDirs out
  let ending := "." ++ output.format.name
  let tablePath := out.join (name ++ ending)
  Export.write store output t tablePath
  Job.info Export.component
    s!"Exported table '{name}' -> {tablePath.name} ({t.rows} rows, {t.columns.length} cols)"
  match description with
  | none => return [toString tablePath]
  | some d =>
    let descriptionPath := out.join (descriptionName ++ ending)
    Export.write store output d descriptionPath
    Job.info Export.component
      s!"Exported {descriptionName} -> {descriptionPath.name} ({d.rows} rows)"
    return [toString tablePath, toString descriptionPath]

/-- Writes a table and its description to the directory of the settings, which
is made in the file tree on demand. -/
def exportTable (store : TableStore) (name : String) (t : Table) (description : Option Table)
    (output : Config.Output) : Job (List String) :=
  exportInto Job.ensureDirs store name t description output

end Delimited
