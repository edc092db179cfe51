import Delimited.Writer

/-!
# Settings of a conversion

## Main definitions

* `Format`, `Terminator`: the named choices of the settings.
* `Config`: where a conversion reads, what it makes of it and where it writes.
-/

namespace Delimited

/-- The format of output files. -/
inductive Format where
  /-- Delimited text. -/
  | csv
  /-- Stored tables. -/
  | parquet
  /-- A name that is no format. -/
  | other (name : String)
  deriving DecidableEq, Repr

/-- The name of a format, which files of that format end with. -/
def Format.name : Format → String
  | csv => "csv"
  | parquet => "parquet"
  | other name => name

/-- The format with a name. -/
def Format.ofName (s : String) : Format :=
  if s = "csv" then csv else if s = "parquet" then parquet else other s

/-- How lines of delimited output end. -/
inductive Terminator where
  /-- One of the two line breaks. -/
  | known (b : LineBreak)
  /-- A name that is no line break. -/
  | other (name : String)
  deriving DecidableEq, Repr

/-- The name of a terminator. -/
def Terminator.name : Terminator → String
  | known .crlf => "crlf"
  | known .lf => "lf"
  | other name => name

/-- The terminator with a name. -/
def Terminator.ofName (s : String) : Terminator :=
  if s = "crlf" then known .crlf else if s = "lf" then known .lf else other s

/-- The encoding of files for which none is named. -/
def defaultEncoding : String := "utf-8-sig"

namespace Config

/-- The file that is read. -/
structure Source where
  /-- Its path. -/
  inputPath : String
  /-- The name of its encoding. -/
  encoding : String := defaultEncoding
  deriving DecidableEq, Repr

/-- What is made of the records. -/
structure Layout where
  /-- The name of the table. -/
  tableName : String := "default"
  /-- Whether the first record names the columns. -/
  header : Bool := true
  /-- Whether number columns are made. -/
  inferNumbers : Bool := true
  deriving DecidableEq, Repr

/-- Where and how output is written. -/
structure Output where
  /-- The directory. -/
  dir : String := "outputs/"
  /-- The format. -/
  format : Format := .parquet
  /-- Whether the table is described in a second one. -/
  writeMeta : Bool := true
  /-- The line ends of delimited output. -/
  terminator : Terminator := .known .crlf
  /-- The encoding of delimited output. -/
  encoding : String := defaultEncoding
  deriving DecidableEq, Repr

end Config

/-- The settings of a conversion. -/
structure Config where
  /-- The file that is read. -/
  source : Config.Source
  /-- What is made of it. -/
  table : Config.Layout := {}
  /-- Where it is written. -/
  output : Config.Output := {}
  deriving DecidableEq, Repr

end Delimited
