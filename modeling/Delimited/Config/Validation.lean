import Delimited.Config.Basic
import Delimited.Path
import Delimited.Text.Blank
import Delimited.Value

/-!
# Settings from values

A value is checked against the settings section by section and key by key. All
that is wrong is reported, in the order of the settings. Keys that are not known
are ignored, and absent keys have defaults, except for the path of the source.

## Main definitions

* `Issue`: what is wrong with a value, and where.
* `Config.ofValue`: the settings that a value holds, or all that is wrong with it.
* `Config.initial`: the settings of a first run.
-/

namespace Delimited

/-- What is wrong with a value. -/
inductive IssueKind where
  /-- A key is absent. -/
  | missing
  /-- A text was needed. -/
  | stringType
  /-- A mapping was needed, with the keys of a part of the settings. -/
  | modelType (model : String)
  /-- One of two names was needed. -/
  | literal (first second : String)
  /-- A text is refused. -/
  | refused (reason : String)
  /-- A value that cannot be read as a truth value. -/
  | boolParsing
  /-- A value of a kind that is no truth value. -/
  | boolType
  deriving DecidableEq, Repr

/-- The short name of an issue. -/
def IssueKind.name : IssueKind → String
  | missing => "missing"
  | stringType => "string_type"
  | modelType _ => "model_type"
  | literal _ _ => "literal_error"
  | refused _ => "value_error"
  | boolParsing => "bool_parsing"
  | boolType => "bool_type"

/-- The wording of an issue. -/
def IssueKind.message : IssueKind → String
  | missing => "Field required"
  | stringType => "Input should be a valid string"
  | modelType model => "Input should be a valid dictionary or instance of " ++ model
  | literal first second => "Input should be '" ++ first ++ "' or '" ++ second ++ "'"
  | refused reason => "Value error, " ++ reason
  | boolParsing => "Input should be a valid boolean, unable to interpret input"
  | boolType => "Input should be a valid boolean"

/-- What is wrong with a value, and where. -/
structure Issue where
  /-- The keys that lead to the value. -/
  location : List String
  /-- What is wrong. -/
  kind : IssueKind
  deriving DecidableEq, Repr

/-- A result, or all that is wrong. -/
abbrev Checked (α : Type) := Except (List Issue) α

namespace Checked

variable {α β : Type}

/-- Both results, or all that is wrong with either. -/
def both (x : Checked α) (y : Checked β) : Checked (α × β) :=
  match x, y with
  | .ok a, .ok b => .ok (a, b)
  | .ok _, .error e => .error e
  | .error d, .ok _ => .error d
  | .error d, .error e => .error (d ++ e)

/-- The result of a part, with the key that leads to it. -/
def under (key : String) (x : Checked α) : Checked α :=
  x.mapError fun issues => issues.map fun i => { i with location := key :: i.location }

end Checked

namespace Config

variable {α : Type}

/-- The one issue with a value. -/
def issue (kind : IssueKind) : Checked α := .error [⟨[], kind⟩]

/-- A text. -/
def checkText : Value → Checked String
  | .text s => .ok s
  | _ => issue .stringType

/-- The texts that are read as false, in any case. -/
def falseWords : List String := ["0", "off", "f", "false", "n", "no"]

/-- The texts that are read as true, in any case. -/
def trueWords : List String := ["1", "on", "t", "true", "y", "yes"]

/-- The truth value of an integer. -/
def checkInt (n : Int) : Checked Bool :=
  if n = 0 then .ok false else if n = 1 then .ok true else issue .boolParsing

/-- The bound of integers of 64 bits. -/
def wordBound : Int := 0x8000000000000000

/-- The truth value of a double. Doubles that are no integers of 64 bits are of
the wrong kind. -/
def checkDouble (x : Double) : Checked Bool :=
  match x.toInt? with
  | some n => if -wordBound < n ∧ n ≤ wordBound then checkInt n else issue .boolType
  | none => issue .boolType

/-- A truth value, also as a number or as a word. -/
def checkBool : Value → Checked Bool
  | .bool b => .ok b
  | .int n => if -wordBound ≤ n ∧ n < wordBound then checkInt n else checkDouble (.ofInt n)
  | .real x => checkDouble x
  | .text s =>
    let word := String.ofList (s.toList.map Char.toLower)
    if falseWords.contains word then .ok false
    else if trueWords.contains word then .ok true
    else issue .boolParsing
  | _ => issue .boolType

/-- One of two names. -/
def checkChoice (first second : String) : Value → Checked String
  | .text s => if s = first ∨ s = second then .ok s else issue (.literal first second)
  | _ => issue (.literal first second)

/-- Why a text is no name of a table, if it is none. The name is used as the
stem of a file, next to the table that describes it. -/
def tableNameProblem? (s : String) : Option String :=
  if Text.strip s = "" then some "table_name must not be empty"
  else if s.toList.head? = some '_' then
    some ("table_name '" ++ s ++ "' is reserved: names starting with '_' " ++
      "are used for generated tables such as _meta")
  else if s.toList.any fun c => c == '/' || c == '\\' then
    some ("table_name '" ++ s ++ "' must not contain path separators")
  else none

/-- The name of a table. -/
def checkTableName (v : Value) : Checked String :=
  match checkText v with
  | .ok s =>
    match tableNameProblem? s with
    | some reason => issue (.refused reason)
    | none => .ok s
  | .error e => .error e

/-- The checked value of a key, or what an absent key stands for. -/
def key (name : String) (check : Value → Checked α) (absent : Checked α)
    (entries : List (String × Value)) : Checked α :=
  Checked.under name (((Value.lookup name entries).map check).getD absent)

/-- The entries of a mapping that holds a part of the settings. -/
def checkMap (model : String) (check : List (String × Value) → Checked α) : Value → Checked α
  | .map entries => check entries
  | _ => issue (.modelType model)

/-- The source of some entries. -/
def Source.ofEntries (entries : List (String × Value)) : Checked Source :=
  (Checked.both (key "input_path" checkText (issue .missing) entries)
    (key "encoding" checkText (.ok defaultEncoding) entries)).map
    fun (inputPath, encoding) => { inputPath, encoding }

/-- The layout of some entries. -/
def Layout.ofEntries (entries : List (String × Value)) : Checked Layout :=
  let absent : Layout := {}
  (Checked.both (key "table_name" checkTableName (.ok absent.tableName) entries)
    (Checked.both (key "header" checkBool (.ok absent.header) entries)
      (key "infer_numbers" checkBool (.ok absent.inferNumbers) entries))).map
    fun (tableName, header, inferNumbers) => { tableName, header, inferNumbers }

/-- The output of some entries. -/
def Output.ofEntries (entries : List (String × Value)) : Checked Output :=
  let absent : Output := {}
  (Checked.both (key "output_dir" checkText (.ok absent.dir) entries)
    (Checked.both
      (key "output_format" (checkChoice "csv" "parquet") (.ok absent.format.name) entries)
      (Checked.both (key "write_meta" checkBool (.ok absent.writeMeta) entries)
        (Checked.both
          (key "csv_line_terminator" (checkChoice "crlf" "lf") (.ok absent.terminator.name) entries)
          (key "csv_encoding" checkText (.ok absent.encoding) entries))))).map
    fun (dir, format, writeMeta, terminator, encoding) =>
      { dir, format := .ofName format, writeMeta, terminator := .ofName terminator, encoding }

/-- The settings of some entries. -/
def ofEntries (entries : List (String × Value)) : Checked Config :=
  (Checked.both (key "source" (checkMap "SourceConfig" Source.ofEntries) (issue .missing) entries)
    (Checked.both (key "table" (checkMap "TableConfig" Layout.ofEntries) (.ok {}) entries)
      (key "output" (checkMap "OutputConfig" Output.ofEntries) (.ok {}) entries))).map
    fun (source, table, output) => { source, table, output }

/-- The settings that a value holds. -/
def ofValue (v : Value) : Checked Config := checkMap "ConvertConfig" ofEntries v

/-- The settings of a first run. The table is named after the source, if that
makes a name of a table. -/
def initial (inputPath : String) (outputDir header : Value) : Checked Config := do
  let stem := (Path.ofString inputPath).stem
  let table ← match Layout.ofEntries [("table_name", .text stem), ("header", header)] with
    | .ok table => .ok table
    | .error _ => Layout.ofEntries [("header", header)]
  let output ← Output.ofEntries [("output_dir", outputDir)]
  return { source := { inputPath }, table, output }

end Config

end Delimited
