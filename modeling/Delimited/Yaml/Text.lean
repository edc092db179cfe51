import Delimited.Yaml.Cursor

/-!
# Reading scalars

A scalar is written plain, between quotes of one of two kinds, or as a block of
lines. Plain and quoted scalars may go over several lines, which are folded.

## Main definitions

* `Scalar`: the text of a scalar, and whether it went over a line end.
* `plain`: plain scalars.
* `singleQuoted`, `doubleQuoted`: quoted scalars.
* `blockScalar`: blocks of lines, kept or folded.
-/

namespace Delimited.Yaml

/-- The text of a scalar. -/
structure Scalar where
  /-- The text. -/
  text : List Char
  /-- Whether the scalar goes over several lines. -/
  multiline : Bool
  deriving DecidableEq, Repr

/-! ### Plain scalars -/

/-- The characters that end a plain scalar inside brackets. -/
def isFlowIndicator (c : Char) : Bool :=
  c == ',' || c == '[' || c == ']' || c == '\x7b' || c == '\x7d'

/-- Whether a plain scalar ends before `c`, given what comes after `c`. -/
def endsPlain (flow : Bool) (c : Char) (next : Option Char) : Bool :=
  isGapOrEnd (some c) ||
  (c == ':' && (isGapOrEnd next || (flow && (next.map isFlowIndicator).getD false))) ||
  (flow && (isFlowIndicator c || c == '?'))

/-- Whether a plain scalar can start with `c`, given what comes after `c`. -/
def startsPlain (flow : Bool) (c : Char) (next : Option Char) : Bool :=
  if c == '-' || (!flow && (c == '?' || c == ':')) then !isGapOrEnd next
  else !(isGapOrEnd (some c) || "?:,[]\x7b\x7d#&*!|>'\"%@`".contains c)

/-- What stands between the parts of a plain scalar. -/
inductive Gap where
  /-- Nothing. -/
  | none
  /-- Some spaces. -/
  | spaces (n : Nat)
  /-- Some line ends, the last one first. -/
  | breaks (found : List Char)

/-- The text that a gap stands for. -/
def Gap.text : Gap → List Char
  | none => []
  | spaces n => List.replicate n ' '
  | breaks found => folded found.reverse

/-- Whether a gap goes over a line end. -/
def Gap.crosses : Gap → Bool
  | breaks _ => true
  | _ => false

/-- Reads a plain scalar, of which `found` is the text so far in reverse. It ends
after the last character that belongs to it, at `stop`. Outside brackets a line
goes on with the scalar only right of `indent`. -/
def plainFrom (flow : Bool) (indent : Int) (found : List Char) (multiline : Bool) (stop : Cursor)
    (gap : Gap) (column : Nat) : List Char → Scalar × Cursor
  | [] => (⟨found.reverse, multiline⟩, stop)
  | c :: cs =>
    let finish : Scalar × Cursor := (⟨found.reverse, multiline⟩, stop)
    if isBreak c then
      let before := match gap with
        | .breaks found => found
        | _ => []
      if isMarker cs then finish
      else plainFrom flow indent found multiline stop (.breaks (normalBreak c :: before)) 0 cs
    else if c = ' ' then
      let wider := match gap with
        | .none => .spaces 1
        | .spaces n => .spaces (n + 1)
        | .breaks found => .breaks found
      plainFrom flow indent found multiline stop wider (column + 1) cs
    else
      let outside := gap.crosses && !flow && decide ((column : Int) ≤ indent)
      let comment := c == '#' && (match gap with | .none => false | _ => true)
      if outside || comment || endsPlain flow c cs.head? then finish
      else
        plainFrom flow indent (c :: gap.text.reverse ++ found) (multiline || gap.crosses)
          ⟨cs, column + 1⟩ .none (column + 1) cs

/-- Reads a plain scalar. -/
def plain (flow : Bool) (indent : Int) (c : Cursor) : Scalar × Cursor :=
  plainFrom flow indent [] false c .none c.column c.rest

/-! ### Quoted scalars -/

/-- What was read last in a quoted scalar. -/
inductive Pending where
  /-- Text. -/
  | none
  /-- Blanks, the last one first. -/
  | blanks (found : List Char)
  /-- Line ends, the last one first. -/
  | breaks (found : List Char)
  /-- An escaped line end and further ones, the last one first. -/
  | joined (found : List Char)
  /-- A backslash. -/
  | escape
  /-- An escape by code, so many digits short of its value. -/
  | code (missing value : Nat)

/-- The text that blanks and line ends stand for, in reverse. -/
def Pending.textRev : Pending → List Char
  | blanks found => found
  | breaks found => (folded found.reverse).reverse
  | joined found => found
  | _ => []

/-- Whether the start of a line has been reached. -/
def Pending.crosses : Pending → Bool
  | breaks _ => true
  | joined _ => true
  | _ => false

/-- What a blank adds to what was read last. -/
def Pending.blank (p : Pending) (c : Char) : Pending :=
  match p with
  | blanks found => blanks (c :: found)
  | breaks found => breaks found
  | joined found => joined found
  | _ => blanks [c]

/-- What a line end adds to what was read last. -/
def Pending.break (p : Pending) (c : Char) : Pending :=
  match p with
  | breaks found => breaks (normalBreak c :: found)
  | joined found => joined (normalBreak c :: found)
  | _ => breaks [normalBreak c]

/-- Reads a scalar between single quotes after the first quote. A quote inside is
written twice. -/
def singleFrom (found : List Char) (multiline : Bool) (pending : Pending) (column : Nat) :
    List Char → Option (Scalar × Cursor)
  | [] => none
  | c :: cs =>
    if isBreak c then
      if isMarker cs then none
      else singleFrom found true (pending.break c) 0 cs
    else if c = ' ' ∨ c = '\t' then singleFrom found multiline (pending.blank c) (column + 1) cs
    else if c = '\'' then
      match cs with
      | '\'' :: rest =>
        singleFrom ('\'' :: pending.textRev ++ found) multiline .none (column + 2) rest
      | _ => some (⟨(pending.textRev ++ found).reverse, multiline⟩, ⟨cs, column + 1⟩)
    else singleFrom (c :: pending.textRev ++ found) multiline .none (column + 1) cs

/-- Reads a scalar between single quotes. -/
def singleQuoted (c : Cursor) : Option (Scalar × Cursor) :=
  singleFrom [] false .none (c.column + 1) (c.rest.drop 1)

/-- The characters with an escape of one letter. -/
def escapes : List (Char × Char) := [
  ('0', '\x00'), ('a', '\x07'), ('b', '\x08'), ('t', '\t'), ('\t', '\t'), ('n', '\n'),
  ('v', '\x0B'), ('f', '\x0C'), ('r', '\r'), ('e', '\x1B'), (' ', ' '), ('"', '"'), ('\\', '\\'),
  ('/', '/'), ('N', '\u0085'), ('_', '\u00A0'), ('L', '\u2028'), ('P', '\u2029')]

/-- The number of digits after the letter of an escape by code. -/
def codeWidth? (c : Char) : Option Nat :=
  if c = 'x' then some 2 else if c = 'u' then some 4 else if c = 'U' then some 8 else none

/-- The value of a hexadecimal digit. -/
def hexValue? (c : Char) : Option Nat :=
  if '0' ≤ c ∧ c ≤ '9' then some (c.toNat - '0'.toNat)
  else if 'a' ≤ c ∧ c ≤ 'f' then some (c.toNat - 'a'.toNat + 10)
  else if 'A' ≤ c ∧ c ≤ 'F' then some (c.toNat - 'A'.toNat + 10)
  else none

/-- Reads a scalar between double quotes after the first quote. A backslash
escapes a character, a code or a line end. -/
def doubleFrom (found : List Char) (multiline : Bool) (pending : Pending) (column : Nat) :
    List Char → Option (Scalar × Cursor)
  | [] => none
  | c :: cs =>
    match pending with
    | .code missing value =>
      match hexValue? c with
      | none => none
      | some digit =>
        let n := 16 * value + digit
        if missing ≤ 1 then
          if n.isValidChar then doubleFrom (Char.ofNat n :: found) multiline .none (column + 1) cs
          else none
        else doubleFrom found multiline (.code (missing - 1) n) (column + 1) cs
    | .escape =>
      if isBreak c then
        if isMarker cs then none else doubleFrom found true (.joined []) 0 cs
      else match escapes.lookup c with
        | some d => doubleFrom (d :: found) multiline .none (column + 1) cs
        | none =>
          match codeWidth? c with
          | some width => doubleFrom found multiline (.code width 0) (column + 1) cs
          | none => none
    | pending =>
      if isBreak c then
        if isMarker cs then none
        else doubleFrom found true (pending.break c) 0 cs
      else if c = ' ' ∨ c = '\t' then doubleFrom found multiline (pending.blank c) (column + 1) cs
      else if c = '"' then
        some (⟨(pending.textRev ++ found).reverse, multiline⟩, ⟨cs, column + 1⟩)
      else if c = '\\' then
        doubleFrom (pending.textRev ++ found) multiline .escape (column + 1) cs
      else doubleFrom (c :: pending.textRev ++ found) multiline .none (column + 1) cs

/-- Reads a scalar between double quotes. -/
def doubleQuoted (c : Cursor) : Option (Scalar × Cursor) :=
  doubleFrom [] false .none (c.column + 1) (c.rest.drop 1)

/-! ### Blocks of lines -/

/-- What becomes of the line ends after the last line of a block. -/
inductive Chomping where
  /-- One of them is kept. -/
  | clip
  /-- None is kept. -/
  | strip
  /-- All are kept. -/
  | keep
  deriving DecidableEq

/-- The chomping that a sign stands for. -/
def chomping? (c : Char) : Option Chomping :=
  if c = '+' then some .keep else if c = '-' then some .strip else none

/-- The number of columns that a digit asks for, which is not zero. -/
def increment? (c : Char) : Option Nat :=
  if '1' ≤ c ∧ c ≤ '9' then some (c.toNat - '0'.toNat) else none

/-- The signs after the mark of a block: chomping and indentation, in any order. -/
def blockSigns (cs : List Char) : Chomping × Option Nat × List Char :=
  match cs with
  | [] => (.clip, none, [])
  | c :: rest =>
    match chomping? c with
    | some chomping =>
      match rest with
      | d :: more =>
        match increment? d with
        | some n => (chomping, some n, more)
        | none => (chomping, none, rest)
      | [] => (chomping, none, rest)
    | none =>
      match increment? c with
      | some n =>
        match rest with
        | d :: more =>
          match chomping? d with
          | some chomping => (chomping, some n, more)
          | none => (.clip, some n, rest)
        | [] => (.clip, some n, rest)
      | none => (.clip, none, cs)

/-- What follows the line of the mark, which holds only spaces and a comment. -/
def afterMark (cs : List Char) : Option (List Char) :=
  if isGapOrEnd cs.head? && cs.head? != some '\t' then
    let ending := cs.dropWhile (· == ' ')
    let ending := if ending.head? = some '#' then ending.dropWhile (!isBreak ·) else ending
    match ending with
    | [] => some []
    | c :: rest => if isBreak c then some rest else none
  else none

/-- Goes over spaces and line ends before the first line: the line ends, the
greatest column that was reached, and the cursor after them. -/
def leading (breaks : List Char) (greatest column : Nat) : List Char → List Char × Nat × Cursor
  | [] => (breaks.reverse, greatest, ⟨[], column⟩)
  | c :: cs =>
    if isBreak c then leading (normalBreak c :: breaks) greatest 0 cs
    else if c = ' ' then leading breaks (max greatest (column + 1)) (column + 1) cs
    else (breaks.reverse, greatest, ⟨c :: cs, column⟩)

/-- Goes over the spaces left of a column and over empty lines: the line ends,
and the cursor after them. -/
def emptyLines (indent : Nat) (breaks : List Char) (column : Nat) : List Char → List Char × Cursor
  | [] => (breaks.reverse, ⟨[], column⟩)
  | c :: cs =>
    if isBreak c then emptyLines indent (normalBreak c :: breaks) 0 cs
    else if c = ' ' ∧ column < indent then emptyLines indent breaks (column + 1) cs
    else (breaks.reverse, ⟨c :: cs, column⟩)

theorem length_emptyLines (indent : Nat) (breaks : List Char) (column : Nat) (cs : List Char) :
    (emptyLines indent breaks column cs).2.rest.length ≤ cs.length := by
  induction cs generalizing breaks column with
  | nil => simp [emptyLines]
  | cons c cs ih =>
    unfold emptyLines
    split
    · exact Nat.le_succ_of_le (ih _ _)
    · split
      · exact Nat.le_succ_of_le (ih _ _)
      · simp

/-- The text of a line, without what ends it. -/
def lineOf (cs : List Char) : List Char := cs.takeWhile (!isBreak ·)

/-- Whether a line starts with something else than a blank. -/
def isFlush (cs : List Char) : Bool := cs.head? != some ' ' && cs.head? != some '\t'

/-- Reads the lines of a block from a cursor on, after the text `found` and some
line ends. Gives the text, the last line end, and the line ends after it. -/
def blockLines (foldedLines : Bool) (indent : Nat) (found breaks : List Char) (c : Cursor) :
    List Char × List Char × List Char × Cursor :=
  match _line : c.rest.dropWhile (!isBreak ·) with
  | [] =>
    if c.column = indent ∧ c.rest ≠ [] then
      (found ++ breaks ++ lineOf c.rest, [], [], ⟨[], c.column + c.rest.length⟩)
    else (found, [], breaks, c)
  | b :: rest =>
    if c.column = indent ∧ c.rest ≠ [] then
      let text := found ++ breaks ++ lineOf c.rest
      let ending := normalBreak b
      let next := emptyLines indent [] 0 rest
      if next.2.column = indent ∧ next.2.rest ≠ [] then
        let between :=
          if foldedLines && ending == '\n' && isFlush c.rest && isFlush next.2.rest then
            if next.1 = [] then [' '] else []
          else [ending]
        blockLines foldedLines indent (text ++ between) next.1 next.2
      else (text, [ending], next.1, next.2)
    else (found, [], breaks, c)
termination_by c.rest.length
decreasing_by
  have shorter := (List.dropWhile_sublist (!isBreak ·) (l := c.rest)).length_le
  have later := length_emptyLines indent [] 0 rest
  rw [_line] at shorter
  simp only [List.length_cons] at shorter
  omega

/-- Reads a block of lines right of `indent`, from its mark on. -/
def blockScalar (indent : Int) (c : Cursor) : Option (Scalar × Cursor) :=
  let (chomping, increment, signs) := blockSigns (c.rest.drop 1)
  match afterMark signs with
  | none => none
  | some lines =>
    let least := max 1 (indent + 1).toNat
    let (breaks, column, start) : List Char × Nat × Cursor :=
      match increment with
      | none =>
        let (breaks, greatest, start) := leading [] 0 0 lines
        (breaks, max least greatest, start)
      | some n =>
        let (breaks, start) := emptyLines (least + n - 1) [] 0 lines
        (breaks, least + n - 1, start)
    let (text, ending, breaks, stop) := blockLines (c.rest.head? == some '>') column [] breaks start
    let text := match chomping with
      | .strip => text
      | .clip => text ++ ending
      | .keep => text ++ ending ++ breaks
    some (⟨text, true⟩, stop)

end Delimited.Yaml
