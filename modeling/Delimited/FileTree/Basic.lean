import Delimited.Path
import Delimited.Table.Basic

/-!
# File trees

A file tree holds directories, files of bytes and stored tables below a working
directory. Reading and writing follow a path name by name: every name but the
last has to lead to a directory, and a double dot leads back.

The root of a path is not looked at. The working directory stands for every root,
and a double dot there stays where it is. Every name is possible, however long
and of whatever characters, there are no permissions, and no location is reached
by two names, as it would be with links.

## Main definitions

* `FileTree`: what stands at which location.
* `FileTree.walk`: the location that a path leads to.
* `FileTree.stat?`, `FileTree.read`: what stands at a path.
* `FileTree.store`: puts a file at a path.
* `FileTree.ensureDirs`, `FileTree.makeDirs`: make a directory and those above it.
-/

namespace Delimited

/-- What stands in a file tree. -/
inductive Entry where
  /-- A directory. -/
  | directory
  /-- A file of bytes. -/
  | file (bytes : List UInt8)
  /-- A file that stores a table in some bytes. -/
  | table (t : Table) (bytes : List UInt8)
  deriving DecidableEq, Repr

/-- The bytes of a file. -/
def Entry.bytes? : Entry → Option (List UInt8)
  | directory => none
  | file bytes => some bytes
  | table _ bytes => some bytes

/-- Why a path cannot be used. -/
inductive OsCause where
  /-- There is nothing. -/
  | notFound
  /-- There is something already. -/
  | alreadyExists
  /-- A name on the way leads to a file. -/
  | notADirectory
  /-- There is a directory. -/
  | isADirectory
  /-- It is not permitted. In a file tree everything is. -/
  | notPermitted
  deriving DecidableEq, Repr

/-- A path that cannot be used. -/
structure OsError where
  /-- Why. -/
  cause : OsCause
  /-- The path. -/
  path : Path
  deriving DecidableEq, Repr

/-- The wording of a cause, after its number. -/
def OsCause.message : OsCause → String
  | notFound => "[Errno 2] No such file or directory: "
  | alreadyExists => "[Errno 17] File exists: "
  | notADirectory => "[Errno 20] Not a directory: "
  | isADirectory => "[Errno 21] Is a directory: "
  | notPermitted => "[Errno 13] Permission denied: "

/-- The wording of an error about a path. -/
def OsError.message (e : OsError) : String :=
  e.cause.message ++ Text.quoted (toString e.path)

/-- A location: the names that lead to it, without dots. -/
abbrev Location := List String

/-- What stands at which location. The working directory is always there. -/
structure FileTree where
  /-- The locations below the working directory, in the order they were made. -/
  entries : List (Location × Entry) := []
  deriving DecidableEq, Repr

namespace FileTree

/-- What stands at a location. -/
def get? (t : FileTree) (l : Location) : Option Entry :=
  if l = [] then some .directory else t.entries.lookup l

/-- The tree with an entry at a location. -/
def put (t : FileTree) (l : Location) (e : Entry) : FileTree :=
  if t.entries.any fun x => x.1 == l then
    ⟨t.entries.map fun x => if x.1 = l then (l, e) else x⟩
  else ⟨t.entries ++ [(l, e)]⟩

/-- The location that some names lead to from a location. -/
def walk (t : FileTree) (here : Location) : List String → Except OsCause Location
  | [] => .ok here
  | name :: names =>
    match t.get? here with
    | some .directory => walk t (if name = ".." then here.dropLast else here ++ [name]) names
    | some _ => .error .notADirectory
    | none => .error .notFound

/-- The location that a path leads to. -/
def locate (t : FileTree) (p : Path) : Except OsError Location :=
  (t.walk [] p.parts).mapError fun cause => ⟨cause, p⟩

/-- What stands at a path, if anything does. -/
def stat? (t : FileTree) (p : Path) : Option Entry :=
  match t.locate p with
  | .ok l => t.get? l
  | .error _ => none

/-- Whether anything stands at a path. -/
def has (t : FileTree) (p : Path) : Bool := (t.stat? p).isSome

/-- Whether a directory stands at a path. -/
def hasDir (t : FileTree) (p : Path) : Bool := t.stat? p == some .directory

/-- The bytes of the file at a path. -/
def read (t : FileTree) (p : Path) : Except OsError (List UInt8) := do
  match t.get? (← t.locate p) with
  | none => .error ⟨.notFound, p⟩
  | some e =>
    match e.bytes? with
    | some bytes => .ok bytes
    | none => .error ⟨.isADirectory, p⟩

/-- The tree with a file at a path. What stood there is replaced, unless it is a
directory. -/
def store (t : FileTree) (p : Path) (e : Entry) : Except OsError FileTree := do
  let l ← t.locate p
  match t.get? l with
  | some .directory => .error ⟨.isADirectory, p⟩
  | _ => .ok (t.put l e)

/-- The tree with a new directory at a path. -/
def makeDir (t : FileTree) (p : Path) : Except OsError FileTree := do
  let l ← t.locate p
  match t.get? l with
  | some _ => .error ⟨.alreadyExists, p⟩
  | none => .ok (t.put l .directory)

/-- What a failure to make a directory comes to: it does not matter when the
directory is there. -/
def forgive (t : FileTree) (p : Path) (e : OsError) : FileTree × Option OsError :=
  (t, if t.hasDir p then none else some e)

/-- Makes a directory where `names` lead to from `root`, and those above it. The
names are in reverse order. The directories that were made before an error stay. -/
def ensureDirsRev (root : String) (t : FileTree) : List String → FileTree × Option OsError
  | [] => t.forgive ⟨root, []⟩ ⟨.alreadyExists, ⟨root, []⟩⟩
  | name :: above =>
    let p : Path := ⟨root, (name :: above).reverse⟩
    match t.makeDir p with
    | .ok u => (u, none)
    | .error ⟨.notFound, _⟩ =>
      match ensureDirsRev root t above with
      | (u, none) =>
        match u.makeDir p with
        | .ok w => (w, none)
        | .error e => u.forgive p e
      | (u, some e) => (u, some e)
    | .error e => t.forgive p e

/-- Makes a directory at a path, and those above it. -/
def ensureDirs (t : FileTree) (p : Path) : FileTree × Option OsError :=
  ensureDirsRev p.root t p.parts.reverse

/-- The tree with a directory at a path, and with those above it. -/
def makeDirs (t : FileTree) (p : Path) : Except OsError FileTree :=
  match t.ensureDirs p with
  | (u, none) => .ok u
  | (_, some e) => .error e

end FileTree

end Delimited
