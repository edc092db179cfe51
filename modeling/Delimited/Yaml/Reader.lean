import Delimited.Yaml.Plain
import Delimited.Yaml.Text

/-!
# Reading settings files

A settings file is one document: a scalar, a list or a mapping, laid out by
indentation or between brackets. Of a mapping only the entries with a text as key
can be asked for, and no other entries are kept.

Five things that a file may have are not read: anchors, tags, directives, keys that
are lists or mappings, and keys that merge another mapping. A file with one of them
is malformed here, so that nothing is said of the settings that it would stand for.

## Main definitions

* `flowNode`, `flowItems`, `flowEntries`: what stands between brackets.
* `blockNode`, `blockMapping`, `blockSequence`: what is laid out by indentation.
* `document`: a whole file.
-/

namespace Delimited.Yaml

/-- A scalar that is not a block of lines, and the value it stands for. -/
def scalar (flow : Bool) (indent : Int) (c : Cursor) : Option (Value × Bool × Cursor) :=
  match c.rest with
  | [] => none
  | first :: rest =>
    if first = '\'' then
      (singleQuoted c).map fun (s, next) => (.text (String.ofList s.text), s.multiline, next)
    else if first = '"' then
      (doubleQuoted c).map fun (s, next) => (.text (String.ofList s.text), s.multiline, next)
    else if startsPlain flow first rest.head? then
      let (s, next) := plain flow indent c
      (Plain.resolve s.text).map fun v => (v, s.multiline, next)
    else none

/-- The entry of a mapping, if its key is a text. -/
def entry (key value : Value) : List (String × Value) :=
  match key with
  | .text s => [(s, value)]
  | _ => []

/-! ### Between brackets -/

mutual

/-- Reads a list, a mapping or a scalar between brackets. The flag tells whether
it is a scalar on one line, which can be a key. -/
def flowNode : Nat → Cursor → Option (Value × Bool × Cursor)
  | 0, _ => none
  | fuel + 1, c =>
    if c.atMarker then none
    else match c.rest.head? with
      | some '[' => (flowItems fuel [] (c.forward 1)).map fun (v, next) => (v, false, next)
      | some '\x7b' => (flowEntries fuel [] (c.forward 1)).map fun (v, next) => (v, false, next)
      | _ => (scalar true 0 c).map fun (v, multiline, next) => (v, !multiline, next)

/-- Reads a value after a key between brackets, or nothing before a comma or the
closing bracket. -/
def flowValue : Nat → Char → Cursor → Option (Value × Cursor)
  | 0, _, _ => none
  | fuel + 1, close, c =>
    let next := c.skip.2
    if next.rest.head? = some ',' ∨ next.rest.head? = some close then some (.null, next)
    else (flowNode fuel next).map fun (v, _, next) => (v, next)

/-- Reads a key or an item, and the value after it if a colon follows. -/
def flowEntry : Nat → Char → Cursor → Option (Value × Option Value × Cursor)
  | 0, _, _ => none
  | fuel + 1, close, c =>
    match flowNode fuel c with
    | none => none
    | some (v, isKey, next) =>
      let colon := next.skipSpaces
      if isKey && colon.rest.head? == some ':' then
        (flowValue fuel close (colon.forward 1)).map fun (w, next) => (v, some w, next)
      else some (v, none, next)

/-- Reads the items of a list up to its closing bracket. -/
def flowItems : Nat → List Value → Cursor → Option (Value × Cursor)
  | 0, _, _ => none
  | fuel + 1, found, c =>
    let start := c.skip.2
    if start.rest.head? = some ']' then some (.list found.reverse, start.forward 1)
    else match flowEntry fuel ']' start with
      | none => none
      | some (v, value, next) =>
        let item := match value with
          | some w => .map (entry v w)
          | none => v
        let stop := next.skip.2
        if stop.rest.head? = some ',' then flowItems fuel (item :: found) (stop.forward 1)
        else if stop.rest.head? = some ']' then some (.list (item :: found).reverse, stop.forward 1)
        else none

/-- Reads the entries of a mapping up to its closing bracket. -/
def flowEntries : Nat → List (String × Value) → Cursor → Option (Value × Cursor)
  | 0, _, _ => none
  | fuel + 1, found, c =>
    let start := c.skip.2
    if start.rest.head? = some '\x7d' then some (.map found, start.forward 1)
    else match flowEntry fuel '\x7d' start with
      | none => none
      | some (key, value, next) =>
        match key with
        | .list _ => none
        | .map _ => none
        | key =>
          let entries := found ++ entry key (value.getD .null)
          let stop := next.skip.2
          if stop.rest.head? = some ',' then flowEntries fuel entries (stop.forward 1)
          else if stop.rest.head? = some '\x7d' then some (.map entries, stop.forward 1)
          else none

end

/-! ### By indentation -/

/-- Whether an item of a list starts here. -/
def isDash (c : Cursor) : Bool :=
  match c.rest with
  | '-' :: rest => isGapOrEnd rest.head?
  | _ => false

/-- Whether a block of lines starts here. -/
def isBlockMark (c : Cursor) : Bool := c.rest.head? == some '|' || c.rest.head? == some '>'

/-- Whether what stands here belongs to the key or the item in a column: it
stands right of it, or it is a block of lines, which may stand below it. -/
def isInside (column : Nat) (c : Cursor) : Bool :=
  decide (column < c.column) || (c.column == column && isBlockMark c)

/-- What follows a key: a colon and a gap. -/
def afterColon? (c : Cursor) : Option Cursor :=
  match c.skipSpaces.rest with
  | ':' :: rest => if isGapOrEnd rest.head? then some (c.skipSpaces.forward 1) else none
  | _ => none

/-- A key on one line with its colon, and the cursor after them. -/
def key? (indent : Int) (c : Cursor) : Option (Value × Cursor) :=
  match scalar false indent c with
  | some (key, false, next) => (afterColon? next).map fun next => (key, next)
  | _ => none

/-- What was read, whether a line ended after it, and where reading goes on. -/
abbrev Node := Value × Bool × Cursor

/-- Goes on to the next thing after a node. -/
def settle (v : Value) (fresh : Bool) (c : Cursor) : Node :=
  let (crossed, next) := c.skip
  (v, fresh || crossed, next)

mutual

/-- Reads what stands right of `indent`. Lists and mappings by indentation can
only start where a line or an item of a list starts. -/
def blockNode : Nat → Int → Bool → Cursor → Option Node
  | 0, _, _, _ => none
  | fuel + 1, indent, fresh, c =>
    if isDash c then
      if fresh then blockSequence fuel c.column false [] c else none
    else if c.rest.head? = some '[' ∨ c.rest.head? = some '\x7b' then
      (flowNode fuel c).map fun (v, _, next) => settle v false next
    else if isBlockMark c then
      (blockScalar indent c).map fun (s, next) => settle (.text (String.ofList s.text)) true next
    else if fresh && (key? indent c).isSome then blockMapping fuel c.column [] c
    else (scalar false indent c).map fun (v, _, next) => settle v false next

/-- Reads the value after a key in a column. -/
def blockValue : Nat → Nat → Cursor → Option Node
  | 0, _, _ => none
  | fuel + 1, column, c =>
    let (crossed, next) := c.skip
    if next.atEnd then some (.null, crossed, next)
    else if !crossed then blockNode fuel column false next
    else if isInside column next then blockNode fuel column true next
    else if next.column = column ∧ isDash next then blockSequence fuel column true [] next
    else some (.null, crossed, next)

/-- Reads the entries of a mapping from a column on. -/
def blockMapping : Nat → Nat → List (String × Value) → Cursor → Option Node
  | 0, _, _, _ => none
  | fuel + 1, column, found, c =>
    match key? column c with
    | none => none
    | some (key, next) =>
      match blockValue fuel column next with
      | none => none
      | some (value, fresh, next) =>
        let entries := found ++ entry key value
        if next.atEnd || decide (next.column < column) then some (.map entries, fresh, next)
        else if fresh && next.column == column then blockMapping fuel column entries next
        else none

/-- Reads the items of a list from a column on. A list in the column of the key
above it ends where the next key starts. -/
def blockSequence : Nat → Nat → Bool → List Value → Cursor → Option Node
  | 0, _, _, _, _ => none
  | fuel + 1, column, underKey, found, c =>
    let (crossed, next) := (c.forward 1).skip
    let item :=
      if next.atEnd || !isInside column next then some (.null, crossed, next)
      else blockNode fuel column true next
    match item with
    | none => none
    | some (value, fresh, next) =>
      let items := value :: found
      if next.atEnd || decide (next.column < column) then some (.list items.reverse, fresh, next)
      else if fresh && next.column == column then
        if isDash next then blockSequence fuel column underKey items next
        else if underKey then some (.list items.reverse, fresh, next)
        else none
      else none

end

/-! ### Files -/

/-- Whether nothing follows a document but the marker of its end. -/
def isFinished : Nat → Cursor → Bool
  | 0, _ => false
  | fuel + 1, c =>
    c.rest.isEmpty ||
      (c.column == 0 && marks '.' c.rest && isFinished fuel (c.forward 3).skip.2)

/-- The characters that a settings file can hold. -/
def isAllowed (c : Char) : Bool :=
  let n := c.toNat
  c == '\t' || c == '\n' || decide ((0x20 ≤ n ∧ n ≤ 0x7E) ∨ n = 0x85 ∨ (0xA0 ≤ n ∧ n ≤ 0xD7FF) ∨
    (0xE000 ≤ n ∧ n ≤ 0xFFFD) ∨ 0x10000 ≤ n)

/-- Reads a whole file. An empty document is nothing. -/
def document (text : List Char) : Option Value :=
  let body := if text.head? = some '\uFEFF' then text.drop 1 else text
  let fuel := 4 * text.length + 8
  if !text.all isAllowed then none
  else
    let start := (Cursor.skip ⟨body, 0⟩).2
    let marked := start.column == 0 && marks '-' start.rest
    let (fresh, first) := if marked then (start.forward 3).skip else (true, start)
    let node : Option Node :=
      if first.rest.isEmpty || (marked && first.atMarker) then some (.null, true, first)
      else if first.atMarker then none
      else blockNode fuel (-1) fresh first
    match node with
    | some (value, _, next) => if isFinished fuel next then some value else none
    | none => none

/-- A text with every line end that holds a carriage return as one line feed. -/
def unifyLineEnds : List Char → List Char
  | '\r' :: '\n' :: cs => '\n' :: unifyLineEnds cs
  | '\r' :: cs => '\n' :: unifyLineEnds cs
  | c :: cs => c :: unifyLineEnds cs
  | [] => []

end Delimited.Yaml
