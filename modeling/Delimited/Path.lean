/-!
# Paths

A path is a sequence of names, from the working directory or from a root. Empty
names and single dots are dropped when a path is read, double dots are kept.

## Main definitions

* `Path.ofString`, `Path.toString`: between texts and paths.
* `Path.name`, `Path.stem`, `Path.parent`: parts of a path.
* `Path.join`: a path below a path.
* `Path.isHome`: whether a path may stand for one in a home directory.
-/

namespace Delimited

/-- A path. The root is empty for a path from the working directory. -/
structure Path where
  /-- The slashes at the start. -/
  root : String
  /-- The names. -/
  parts : List String
  deriving DecidableEq, Repr

namespace Path

/-- The parts of a text between slashes. -/
def splitSlash : List Char → List (List Char)
  | [] => [[]]
  | c :: cs =>
    if c = '/' then [] :: splitSlash cs
    else match splitSlash cs with
      | [] => [[c]]
      | part :: parts => (c :: part) :: parts

/-- The root that a number of slashes stands for: exactly two are kept. -/
def rootOf : Nat → String
  | 0 => ""
  | 2 => "//"
  | _ => "/"

/-- The path that a text is. -/
def ofString (s : String) : Path :=
  let cs := s.toList
  { root := rootOf (cs.takeWhile (· == '/')).length
    parts := ((splitSlash cs).map String.ofList).filter fun p => p ≠ "" && p ≠ "." }

/-- The text of a path. -/
protected def toString (p : Path) : String :=
  if p.root = "" ∧ p.parts = [] then "." else p.root ++ "/".intercalate p.parts

instance : ToString Path := ⟨Path.toString⟩

/-- The last name, empty if there is none. -/
def name (p : Path) : String := p.parts.getLastD ""

/-- A name up to its last dot, unless the dot is the first or the last character. -/
def stemOf (name : String) : String :=
  let reversed := name.toList.reverse
  let ending := reversed.takeWhile (· != '.')
  match reversed.drop ending.length with
  | '.' :: rest => if ending = [] ∨ rest = [] then name else String.ofList rest.reverse
  | _ => name

/-- The last name without its ending. -/
def stem (p : Path) : String := stemOf p.name

/-- The path without its last name. -/
def parent (p : Path) : Path := { p with parts := p.parts.dropLast }

/-- A text read as a path below a path. A path from a root replaces it. -/
def join (p : Path) (s : String) : Path :=
  let q := ofString s
  if q.root = "" then { p with parts := p.parts ++ q.parts } else q

/-- Whether the text of a path starts with a tilde, which some programs take for a
home directory. -/
def isHome (p : Path) : Bool :=
  p.root = "" && (p.parts.headD "").toList.head? == some '~'

end Path

end Delimited
