import Delimited.Conversion.Environment
import Delimited.Encoding.Utf8
import Delimited.Table.Numeral
import Delimited.Writer

/-!
# A plain environment

An environment in which numbers are read with correct rounding, and tables are
stored as a mark and delimited text. The home directory is not in the file tree.

## Main definitions

* `TableStore.withHome`: a store of tables, with a home directory.
* `TableStore.plain`: the same without one in the file tree.
* `Environment.plain`: an environment at a given time.
-/

namespace Delimited

namespace TableStore

/-- Whether a name occurs twice. -/
def hasRepeats : List String → Bool
  | [] => false
  | name :: names => names.contains name || hasRepeats names

/-- The bytes that a stored table starts with. -/
def mark : List UInt8 := [0x50, 0x41, 0x52, 0x31]

/-- The bytes of a stored table: a mark, the kinds of its columns, and its records. -/
def bytes (t : Table) : List UInt8 :=
  match Writer.document .lf true ((t.columns.map fun c => c.cells.kind) :: t.records) with
  | .ok text => mark ++ Utf8.encode text
  | .error _ => mark

/-- Whether a path is one in the home directory. -/
def isBelowHome (p : Path) : Bool := p.root = "" && p.parts.head? == some "~"

/-- Where a path goes. One in the home directory is taken for a path from where this
directory is, if it is in the file tree. -/
def destinationOf (home : Option Path) (p : Path) : Option Path :=
  if isBelowHome p then home.map fun h => { h with parts := h.parts ++ p.parts.tail }
  else some p

/-- Stores tables without a name twice, with a home directory that may be in the file
tree. What goes to one that is not leaves the file tree as it is. -/
def withHome (home : Option Path) : TableStore where
  image t := if hasRepeats t.names then none else some (bytes t)
  destination := destinationOf home
  write t p files :=
    if hasRepeats t.names then (files, some (.repeatedNames t.names))
    else
      match destinationOf home p with
      | none => (files, none)
      | some q =>
        if files.hasDir q then (files, some (.tableIsADirectory q))
        else if !files.hasDir q.parent then (files, some (.noDirectory q.parent))
        else
          match files.store q (.table t (bytes t)) with
          | .error e => (files, some (.os e))
          | .ok made => (made, none)

/-- A store of tables without a home directory in the file tree. -/
def plain : TableStore := withHome none

end TableStore

/-- An environment at a given time. -/
def Environment.plain (now : String) : Environment := ⟨now, Numeral.read, .plain⟩

end Delimited
