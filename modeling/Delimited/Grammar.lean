import Delimited.Parser.Primitive

/-!
# The grammar of delimited text

A document is a sequence of records, separated by line breaks, and a record is
a sequence of fields, separated by commas. A field between double quotes may
hold anything, a double quote being written twice; any other field holds no
comma, double quote, carriage return or line feed.

All records of a document have as many fields as the first one, and nothing but
one line break may follow the last record. Empty input is no record.

## Main definitions

* `isSpecial`: the characters that only a quoted field can hold.
* `Grammar.field`, `Grammar.record`, `Grammar.document`: the rules.
* `parseDocument`: reads a document.
-/

namespace Delimited

/-- The fields of one line of a table. -/
abbrev Record := List String

/-- The records of a delimited text. -/
abbrev Document := List Record

/-- The characters that only a quoted field can hold. -/
def isSpecial (c : Char) : Bool :=
  c == ',' || c == '"' || c == '\r' || c == '\n'

/-- Whether a text is one special character. -/
def isSpecialText (s : String) : Bool :=
  match s.toList with
  | [c] => isSpecial c
  | _ => false

namespace Grammar

open Delimited.Parser

/-- What is expected in a record of the wrong width. -/
def moreFields : String := "more fields in this record"

/-- What is expected where a record ends and the text does not. -/
def trailing : String := "comma or a line break"

/-- Reads a comma. -/
def comma : Parser Char := char ','

/-- Reads a double quote. -/
def dquote : Parser Char := char '"'

/-- Reads characters up to a special one. -/
def nonEscaped : Parser String :=
  (anyChar.filter fun c => !isSpecial c).many.map String.ofList

/-- Reads a character between quotes: any but a quote, or a quote written twice. -/
def quotedChar : Parser Char :=
  (anyChar.filter fun c => c != '"').orElse (dquote.left dquote)

/-- Reads a quoted field with both its quotes. -/
def escaped : Parser String :=
  (dquote.right (quotedChar.many.left dquote)).map String.ofList

/-- Reads a field. Where no complete quoted field stands, it is read up to the
next special character, and so it is never rejected. -/
def field : Parser String := leaf "field" (escaped.orElse nonEscaped).run

/-- Reads a field and those that follow after commas. -/
def fields : Parser Record :=
  (pair field (comma.right field).many).map fun (first, others) => first :: others

/-- Reads a record, which empty input is not. -/
def record : Parser Record := leaf "record" fun v =>
  match v.nonempty with
  | .ok true => fields.run v
  | .ok false => .ok (.reject v .noInput)
  | .error fault => .error fault

/-- Reads the records after `first`, each as wide as `first`. -/
def recordsLike (first : Record) : Parser Document :=
  (lineBreak.right (record.require (fun r => r.length == first.length) moreFields)).many.map
    fun others => first :: others

/-- Reads a record and those that follow after line breaks. -/
def records : Parser Document := record.bind recordsLike

/-- What is left after the records: nothing, or one line break. -/
def finish (document : Document) : Step Document := fun v =>
  match v.nonempty with
  | .ok false => .ok (.success v document)
  | .error fault => .error fault
  | .ok true =>
    match lineBreak.run v with
    | .ok (.success remaining _) =>
      match remaining.nonempty with
      | .ok false => .ok (.success remaining document)
      | .ok true => .ok (.fail v (.invalidInput trailing))
      | .error fault => .error fault
    | .ok (.rejected _) => .ok (.fail v (.invalidInput trailing))
    | .error fault => .error fault

/-- Reads a whole document. -/
def document : Parser Document := leaf "document" (records.run.bind finish)

end Grammar

/-- Reads a whole document from a view. -/
def parseDocument (v : View) : Except Fault (Outcome Document) :=
  Grammar.document.run v

end Delimited
