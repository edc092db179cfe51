import Delimited.Clock
import Delimited.Conversion.Batch
import Delimited.Conversion.Plain

/-!
# The command line

Works on a copy of the working directory, and then writes back what has changed
and prints the log.
-/

namespace Delimited.CommandLine

/-- Adds what stands in a directory to a file tree. -/
partial def copyFrom (tree : FileTree) (here : Location) : IO FileTree := do
  let directory ← IO.FS.realPath ("/".intercalate ("." :: here))
  let mut tree := tree
  for entry in ← directory.readDir do
    let location := here ++ [entry.fileName]
    if ← entry.path.isDir then
      tree ← copyFrom (tree.put location .directory) location
    else
      tree := tree.put location (.file (← IO.FS.readBinFile entry.path).toList)
  return tree

/-- Writes the entries of a file tree that another one does not have. -/
def writeChanges (old new : FileTree) : IO Unit := do
  for (location, entry) in new.entries do
    if old.get? location ≠ some entry then
      let path := "/".intercalate location
      match entry.bytes? with
      | none => IO.FS.createDirAll path
      | some bytes => IO.FS.writeBinFile path ⟨bytes.toArray⟩

/-- The number of seconds since the start of 1970. -/
def secondsNow : IO Nat := do
  let (_, path) ← IO.FS.createTempFile
  let time := (← path.metadata).modified
  IO.FS.removeFile path
  return time.sec.toNat

/-- A message of the log as it is printed. -/
def logLine (time : String) (e : LogEntry) : String :=
  let level := e.level.name
  let gap := String.ofList (List.replicate (8 - level.length) ' ')
  time ++ "  " ++ level ++ gap ++ "  " ++ e.component ++ "  " ++ e.message

end Delimited.CommandLine

open Delimited CommandLine in
/-- Converts the files that are named on the command line. -/
def main (arguments : List String) : IO UInt32 := do
  let seconds ← secondsNow
  let files ← copyFrom {} []
  let (result, world) := (batch (.plain (Clock.iso seconds)) arguments).run.run { files }
  writeChanges files world.files
  for e in world.log do
    IO.eprintln (logLine (Clock.time seconds) e)
  match result with
  | .ok code => return code.toUInt32
  | .error failure =>
    IO.eprintln failure.message
    return 1
