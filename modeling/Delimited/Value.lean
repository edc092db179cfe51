import Delimited.Decimal.Shortest
import Delimited.Text.Quoted

/-!
# Values

A value is what a settings file holds before anything is known about it: a text,
a number, a truth value, nothing, a date, or a list or mapping of values.

## Main definitions

* `Value`: values.
* `Value.get?`: the value of a key of a mapping.
* `Value.shown`: a value as messages show it.
* `Value.kind`: the kind of a value as messages name it.
-/

namespace Delimited

/-- A value. The last entry of a key in a mapping counts. -/
inductive Value where
  /-- Nothing. -/
  | null
  /-- A truth value. -/
  | bool (b : Bool)
  /-- An integer. -/
  | int (n : Int)
  /-- A number with a fraction or an exponent. -/
  | real (x : Double)
  /-- A text. -/
  | text (s : String)
  /-- A date or a point in time, as it was written. -/
  | date (s : String)
  /-- A list. -/
  | list (items : List Value)
  /-- A mapping. -/
  | map (entries : List (String × Value))
  deriving Repr, Inhabited

namespace Value

/-- The entry of a key, the last one if there are several. -/
def lookup (key : String) (entries : List (String × Value)) : Option Value :=
  (entries.reverse.find? fun e => e.1 == key).map Prod.snd

/-- The value of a key of a mapping. -/
def get? (key : String) : Value → Option Value
  | map entries => lookup key entries
  | _ => none

mutual

/-- A value as messages show it. -/
def shown : Value → String
  | null => "None"
  | bool b => if b then "True" else "False"
  | int n => toString n
  | real x => x.render .cells
  | text s => Text.quoted s
  | date s => s
  | list items => "[" ++ ", ".intercalate (shownItems items) ++ "]"
  | map entries => "\x7b" ++ ", ".intercalate (shownEntries entries) ++ "\x7d"

/-- The items of a list as messages show them. -/
def shownItems : List Value → List String
  | [] => []
  | item :: items => shown item :: shownItems items

/-- The entries of a mapping as messages show them. -/
def shownEntries : List (String × Value) → List String
  | [] => []
  | (key, value) :: entries => (Text.quoted key ++ ": " ++ shown value) :: shownEntries entries

end

/-- The kind of a value as messages name it. -/
def kind : Value → String
  | null => "NoneType"
  | bool _ => "bool"
  | int _ => "int"
  | real _ => "float"
  | text _ => "str"
  | date _ => "date"
  | list _ => "list"
  | map _ => "dict"

end Value

end Delimited
