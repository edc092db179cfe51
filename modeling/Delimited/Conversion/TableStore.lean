import Delimited.Failure

/-!
# Stored tables

A table can be stored in a file of a format of its own. This is done outside of
the program, which passes on the table and a path. Where the file goes is not up
to the program either: a path that starts with a tilde may be taken for one in a
home directory.

## Main definitions

* `TableStore`: what stores tables.
-/

namespace Delimited

/-- What stores tables in files. The program only asks it to write; the bytes and
the destinations say what it does then. -/
structure TableStore where
  /-- The bytes of the file for a table, if the table can be stored. -/
  image : Table → Option (List UInt8)
  /-- Where the file for a path goes, if it is in the file tree. -/
  destination : Path → Option Path
  /-- Writes a table to a path. -/
  write : Table → Path → FileTree → FileTree × Option ExportCause

end Delimited
