import Delimited.Job
import Delimited.Yaml.Printer
import Delimited.Yaml.Reader

/-!
# Settings files

## Main definitions

* `Config.sections`: the settings as keys and values, section by section.
* `Config.render`: the text of a settings file.
* `Config.load`, `Config.save`: between settings and files.
-/

namespace Delimited

namespace Config

/-- A value of the settings. -/
inductive Item where
  /-- A text. -/
  | text (s : String)
  /-- A truth value. -/
  | flag (b : Bool)
  deriving DecidableEq, Repr

/-- The settings as keys and values, section by section. -/
def sections (c : Config) : List (String × List (String × Item)) := [
  ("source", [
    ("input_path", .text c.source.inputPath),
    ("encoding", .text c.source.encoding)]),
  ("table", [
    ("table_name", .text c.table.tableName),
    ("header", .flag c.table.header),
    ("infer_numbers", .flag c.table.inferNumbers)]),
  ("output", [
    ("output_dir", .text c.output.dir),
    ("output_format", .text c.output.format.name),
    ("write_meta", .flag c.output.writeMeta),
    ("csv_line_terminator", .text c.output.terminator.name),
    ("csv_encoding", .text c.output.encoding)])]

/-- The lines at the start of a settings file. -/
def preamble : String :=
  "# csv-combinators conversion config\n" ++
  "# Edit this file to change the header handling, output format, etc.\n\n"

/-- The written form of a value that starts in a column. -/
def Item.render (column : Nat) : Item → List Char
  | text s => Yaml.printScalar column s.toList
  | flag b => (if b then "true" else "false").toList

/-- The line of a key and its value. -/
def renderItem (key : String) (item : Item) : List Char :=
  let start := "  ".toList ++ key.toList ++ ": ".toList
  start ++ item.render start.length ++ ['\n']

/-- The lines of a section. -/
def renderSection (name : String) (items : List (String × Item)) : List Char :=
  name.toList ++ ":\n".toList ++ items.flatMap fun (key, item) => renderItem key item

/-- The text of a settings file. -/
def render (c : Config) : List Char :=
  preamble.toList ++ c.sections.flatMap fun (name, items) => renderSection name items

/-- The part of the program that reads and writes settings. -/
def component : String := "csv_combinators.config"

/-- The settings that some bytes hold, from the file at a path. -/
def parse (p : Path) (bytes : List UInt8) : Except Failure Value := do
  let text ← (Utf8.decode bytes).mapError Failure.undecodableConfig
  match Yaml.document (Yaml.unifyLineEnds text) with
  | none => .error .malformedConfig
  | some .null => .error (.emptyConfig p)
  | some v => .ok v

/-- Reads the settings from a file. -/
def load (path : String) : Job Config := do
  let p := Path.ofString path
  if !(← Job.files).has p then throw (.configNotFound p)
  let bytes ← Job.ofExcept .os ((← Job.files).read p)
  let value ← Job.ofExcept id (parse p bytes)
  Job.info component ("Loaded config from " ++ toString p)
  Job.ofExcept .invalidConfig (ofValue value)

/-- Writes the settings to a file, in a directory that is made on demand. -/
def save (c : Config) (path : String) : Job Unit := do
  let p := Path.ofString path
  Job.ensureDirs p.parent
  Job.change fun files => files.store p (.file (Utf8.encode c.render))
  Job.info component ("Saved config to " ++ toString p)

end Config

end Delimited
