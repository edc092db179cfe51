import Delimited.Grammar

/-!
# Writing delimited text

A field is written between quotes when it holds a special character, with its
quotes doubled, and as it is otherwise. A record that is one empty field is
written as an empty quoted field, since an empty line is no record.

## Main definitions

* `LineBreak`: the two ways to end a line.
* `WriteError`: what cannot be written.
* `formatField`, `formatRecord`, `formatDocument`: the writers.
-/

namespace Delimited

/-- The two ways to end a line. -/
inductive LineBreak where
  /-- A line feed. -/
  | lf
  /-- A carriage return and a line feed. -/
  | crlf
  deriving DecidableEq, Repr

/-- What cannot be written. -/
inductive WriteError where
  /-- A record without fields. -/
  | emptyRecord
  /-- Lines that end otherwise. -/
  | unsupportedTerminator (terminator : String)
  deriving DecidableEq, Repr

/-- The wording of a write error. -/
def WriteError.message : WriteError → String
  | emptyRecord => "A record needs at least one field"
  | unsupportedTerminator t => "Unsupported line terminator: " ++ Text.quoted t

namespace LineBreak

/-- The characters of a line break. -/
def chars : LineBreak → List Char
  | lf => ['\n']
  | crlf => ['\r', '\n']

/-- The line break with the given characters. -/
def ofText (s : String) : Except WriteError LineBreak :=
  if s = "\r\n" then .ok crlf
  else if s = "\n" then .ok lf
  else .error (.unsupportedTerminator s)

end LineBreak

namespace Writer

/-- A text with every double quote written twice. -/
def doubled (cs : List Char) : List Char :=
  cs.flatMap fun c => if c = '"' then ['"', '"'] else [c]

/-- The written form of a field. -/
def field (cs : List Char) : List Char :=
  if cs.any isSpecial then '"' :: doubled cs ++ ['"'] else cs

/-- The written form of a record. -/
def record (r : Record) : Except WriteError (List Char) :=
  match r with
  | [] => .error .emptyRecord
  | [""] => .ok ['"', '"']
  | fields => .ok ([','].intercalate (fields.map fun s => field s.toList))

/-- The written form of a document. The last line break is left out on demand,
and when nothing stands before it. -/
def document (b : LineBreak) (trailing : Bool) (records : Document) :
    Except WriteError (List Char) := do
  let lines ← records.mapM record
  let body := b.chars.intercalate lines
  return if trailing && !body.isEmpty then body ++ b.chars else body

end Writer

/-- The written form of a field. -/
def formatField (s : String) : String :=
  String.ofList (Writer.field s.toList)

/-- The written form of a record. -/
def formatRecord (r : Record) : Except WriteError String :=
  (Writer.record r).map String.ofList

/-- The written form of a document. -/
def formatDocument (records : Document) (b : LineBreak := .crlf) (trailing : Bool := true) :
    Except WriteError String :=
  (Writer.document b trailing records).map String.ofList

/-- The written form of a document whose lines end with a given text. -/
def formatDocumentWith (terminator : String) (trailing : Bool) (records : Document) :
    Except WriteError String := do
  formatDocument records (← LineBreak.ofText terminator) trailing

end Delimited
