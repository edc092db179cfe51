import Delimited.Config.Validation
import Delimited.Encoding.Basic
import Delimited.FileTree.Basic

/-!
# Failures

All that a conversion can fail with.

## Main definitions

* `ExportCause`: why a file could not be written.
* `Failure`: why a conversion stopped.
* `Failure.message`: the wording of a failure.
-/

namespace Delimited

/-- Why an output file could not be written. -/
inductive ExportCause where
  /-- A record has no fields. -/
  | write (e : WriteError)
  /-- No line break has the name. -/
  | terminator (name : String)
  /-- No encoding has the name. -/
  | encoding (name : String)
  /-- Some characters have no bytes. -/
  | unencodable (e : EncodeError)
  /-- The path cannot be used. -/
  | os (e : OsError)
  /-- A stored table cannot have a name twice. -/
  | repeatedNames (names : List String)
  /-- The directory of a stored table is not there. -/
  | noDirectory (p : Path)
  /-- A stored table cannot replace a directory. -/
  | tableIsADirectory (p : Path)
  /-- A table is not stored for another reason. -/
  | notStored (reason : String)
  deriving DecidableEq, Repr

/-- The wording of an unknown encoding. -/
def unknownEncodingMessage (name : String) : String := "unknown encoding: " ++ name

/-- The wording of a cause. -/
def ExportCause.message : ExportCause → String
  | write e => e.message
  | terminator name => Text.quoted name
  | encoding name => unknownEncodingMessage name
  | unencodable e => e.message
  | os e => e.message
  | repeatedNames names => "Duplicate column names found: " ++ Text.quotedList names
  | noDirectory p => "Cannot save file into a non-existent directory: '" ++ toString p ++ "'"
  | tableIsADirectory p =>
    "[Errno 21] Failed to open local file '" ++ toString p ++
      "'. Detail: [errno 21] Is a directory"
  | notStored reason => reason

/-- Why a conversion stopped. -/
inductive Failure where
  /-- A view was asked for what it does not have. -/
  | fault (f : Fault)
  /-- A path cannot be used. -/
  | os (e : OsError)
  /-- The source is not there. -/
  | sourceNotFound (p : Path)
  /-- The settings file is not there. -/
  | configNotFound (p : Path)
  /-- No encoding has the name. -/
  | unknownEncoding (name : String)
  /-- The bytes of the source are wrong in the encoding. -/
  | undecodable (p : Path) (encoding : String) (e : DecodeError)
  /-- The bytes of the source do not say in which order they are. -/
  | noByteOrder
  /-- The text is no document. -/
  | rejected (source : Option String) (e : Rejection)
  /-- The bytes of the settings file are wrong. -/
  | undecodableConfig (e : DecodeError)
  /-- The text of the settings file is wrong. -/
  | malformedConfig
  /-- The settings file holds nothing. -/
  | emptyConfig (p : Path)
  /-- The settings are wrong. -/
  | invalidConfig (issues : List Issue)
  /-- The header repeats names. -/
  | repeatedNames (inputPath : String) (names : List String)
  /-- The records make no table. -/
  | table (e : TableError)
  /-- No output has the format. -/
  | unsupportedFormat (name : String)
  /-- An output file could not be written. -/
  | notExported (file : String) (format : Format) (cause : ExportCause)
  deriving DecidableEq, Repr

/-- The wording of a failure. Wrong settings are reported issue by issue, and a
malformed settings file is not explained. -/
def Failure.message : Failure → String
  | fault f => f.message
  | os e => e.message
  | sourceNotFound p => "Source file not found: " ++ toString p
  | configNotFound p => "Config file not found: " ++ toString p
  | unknownEncoding name => unknownEncodingMessage name
  | undecodable p encoding e =>
    toString p ++ ": cannot decode as " ++ encoding ++ s!" at byte {e.position}: " ++ e.reason.message
  | noByteOrder => "UTF-16 stream does not start with BOM"
  | rejected source e =>
    let start := match source with
      | none => ""
      | some name => if name = "" then "" else name ++ ": "
    start ++ "invalid CSV at " ++ e.describe
  | undecodableConfig e => e.message "utf-8"
  | malformedConfig => ""
  | emptyConfig p => "Config file is empty: " ++ toString p
  | invalidConfig issues =>
    "\n".intercalate (issues.map fun i => ".".intercalate i.location ++ ": " ++ i.kind.message)
  | repeatedNames inputPath names =>
    "Header of " ++ inputPath ++ " repeats column names: " ++ Text.quotedList names ++
      "\nRename the columns or set 'table.header: false' in the config."
  | table e => e.message
  | unsupportedFormat name => "Unsupported output format: '" ++ name ++ "'"
  | notExported file format cause =>
    "Failed to write " ++ file ++ " as " ++ format.name ++ ": " ++ cause.message

end Delimited
