import Delimited.Job

/-!
# Sources

## Main definitions

* `readText`: the text of a file.
* `parseText`: the records of a text.
* `parseFile`: the records of a file.
-/

namespace Delimited

/-- Reads the text of a file in a named encoding. -/
def readText (path : String) (encoding : String := defaultEncoding) : Job String := do
  let p := Path.ofString path
  if !(← Job.files).has p then throw (.sourceNotFound p)
  let bytes ← Job.ofExcept .os ((← Job.files).read p)
  match Encoding.ofName? encoding with
  | none => throw (.unknownEncoding encoding)
  | some e =>
    match e.decode bytes with
    | .ok text => return text
    | .error (.wrong e) => throw (.undecodable p encoding e)
    | .error .noByteOrder => throw .noByteOrder

/-- The records of a text, which may have the name of its source. -/
def parseText (text : String) (source : Option String := none) : Except Failure Document :=
  match parseDocument (View.ofString text) with
  | .ok (.success _ document) => .ok document
  | .ok (.rejected e) => .error (.rejected source e)
  | .error f => .error (.fault f)

/-- Reads the records of a file in a named encoding. -/
def parseFile (path : String) (encoding : String := defaultEncoding) : Job Document := do
  let text ← readText path encoding
  let document ← Job.ofExcept id (parseText text (some path))
  let width := (document.headD []).length
  Job.info "csv_combinators.reader"
    s!"Parsed {path}: {document.length} records x {width} fields"
  return document

end Delimited
