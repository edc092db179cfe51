import Delimited.Value

/-!
# What plain scalars stand for

A scalar without quotes is read as nothing, a truth value, a number or a date
when it is spelled like one, and as a text otherwise.

## Main definitions

* `Plain.int?`, `Plain.real?`, `Plain.isDate`: the spellings of numbers and dates.
* `Plain.resolve`: the value that a plain scalar stands for.
-/

namespace Delimited.Yaml.Plain

/-- The spellings of nothing. -/
def nullWords : List String := ["", "~", "null", "Null", "NULL"]

/-- The spellings of true. -/
def trueWords : List String :=
  ["yes", "Yes", "YES", "true", "True", "TRUE", "on", "On", "ON"]

/-- The spellings of false. -/
def falseWords : List String :=
  ["no", "No", "NO", "false", "False", "FALSE", "off", "Off", "OFF"]

/-- The spellings that stand for something that settings cannot hold. -/
def reservedWords : List String := ["=", "<<"]

/-- A sign, if there is one, and what follows. -/
def splitSign : List Char → Bool × List Char
  | '-' :: cs => (true, cs)
  | '+' :: cs => (false, cs)
  | cs => (false, cs)

/-- An integer with a sign. -/
def signed (negative : Bool) (n : Nat) : Int := if negative then -(n : Int) else n

/-- The value of a digit. -/
def digitValue (c : Char) : Nat :=
  if c.isDigit then c.toNat - '0'.toNat
  else if c.isUpper then c.toNat - 'A'.toNat + 10
  else c.toNat - 'a'.toNat + 10

/-- The value of digits in a base, underscores left out. -/
def valueIn (base : Nat) (cs : List Char) : Nat :=
  (cs.filter (· != '_')).foldl (fun n c => base * n + digitValue c) 0

/-- Whether a character is a digit or an underscore. -/
def isDigitOrLine (c : Char) : Bool := c.isDigit || c == '_'

/-- Whether a character is a digit of base eight or an underscore. -/
def isOctal (c : Char) : Bool := (decide ('0' ≤ c) && decide (c ≤ '7')) || c == '_'

/-- Whether a character is a digit of base sixteen or an underscore. -/
def isHex (c : Char) : Bool :=
  isDigitOrLine c || (decide ('a' ≤ c) && decide (c ≤ 'f')) || (decide ('A' ≤ c) && decide (c ≤ 'F'))

/-- The groups of digits after colons, each below sixty, at least one, and what
follows them. -/
def sixties (n : Nat) : List Char → Option (Nat × List Char)
  | ':' :: a :: b :: cs =>
    if a.isDigit && decide (a ≤ '5') && b.isDigit then
      let m := 60 * n + (10 * digitValue a + digitValue b)
      some ((sixties m cs).getD (m, cs))
    else if a.isDigit then
      let m := 60 * n + digitValue a
      some ((sixties m (b :: cs)).getD (m, b :: cs))
    else none
  | [':', a] => if a.isDigit then some (60 * n + digitValue a, []) else none
  | _ => none

/-- The integer without its sign. -/
def natural? : List Char → Option Nat
  | ['0'] => some 0
  | '0' :: 'b' :: cs =>
    if cs ≠ [] ∧ cs.all fun c => c == '0' || c == '1' || c == '_' then some (valueIn 2 cs) else none
  | '0' :: 'x' :: cs => if cs ≠ [] ∧ cs.all isHex then some (valueIn 16 cs) else none
  | '0' :: cs => if cs.all isOctal then some (valueIn 8 cs) else none
  | c :: cs =>
    if c.isDigit then
      let n := valueIn 10 (c :: cs.takeWhile isDigitOrLine)
      match cs.dropWhile isDigitOrLine with
      | [] => some n
      | rest =>
        match sixties n rest with
        | some (m, []) => some m
        | _ => none
    else none
  | [] => none

/-- The integer that a scalar is spelled like. -/
def int? (cs : List Char) : Option Int :=
  let (negative, rest) := splitSign cs
  (natural? rest).map (signed negative)

/-- The exponent of a number: nothing, or a mark, a sign and digits. -/
def exponent? : List Char → Option Int
  | [] => some 0
  | [_] => none
  | e :: sign :: cs =>
    if (e = 'e' ∨ e = 'E') ∧ (sign = '+' ∨ sign = '-') ∧ cs ≠ [] ∧ cs.all Char.isDigit then
      some (signed (sign == '-') (valueIn 10 cs))
    else none

/-- The number of a whole part, of digits after the point and of what follows. -/
def fraction? (negative : Bool) (whole : Nat) (rest : List Char) (timed : Bool) : Option Double :=
  let digits := (rest.takeWhile isDigitOrLine).filter (· != '_')
  let ending := rest.dropWhile isDigitOrLine
  let exponent := if timed && !ending.isEmpty then none else exponent? ending
  exponent.map fun e =>
    .ofDecimal negative (whole * Nat.pow 10 digits.length + valueIn 10 digits) (e - digits.length)

/-- The number with a point that a scalar is spelled like. -/
def real? (cs : List Char) : Option Double :=
  let (negative, rest) := splitSign cs
  let unsigned := cs.length == rest.length
  match rest with
  | '.' :: tail =>
    if [['i', 'n', 'f'], ['I', 'n', 'f'], ['I', 'N', 'F']].contains tail then
      some (.infinite negative)
    else if unsigned && [['n', 'a', 'n'], ['N', 'a', 'N'], ['N', 'A', 'N']].contains tail then
      some .nan
    else if unsigned && (tail.head?.map Char.isDigit).getD false then fraction? negative 0 tail false
    else none
  | c :: tail =>
    if c.isDigit then
      let whole := valueIn 10 (c :: tail.takeWhile isDigitOrLine)
      match tail.dropWhile isDigitOrLine with
      | '.' :: digits => fraction? negative whole digits false
      | other =>
        match sixties whole other with
        | some (n, '.' :: digits) => fraction? negative n digits true
        | _ => none
    else none
  | [] => none

/-- Some digits, between a least and a greatest number of them, and what follows. -/
def digits? (least greatest : Nat) (cs : List Char) : Option (List Char) :=
  let found := (cs.take greatest).takeWhile Char.isDigit
  if least ≤ found.length then some (cs.drop found.length) else none

/-- What follows a character. -/
def after? (c : Char) : List Char → Option (List Char)
  | d :: cs => if d = c then some cs else none
  | [] => none

/-- Whether a character is a space or a tab. -/
def isGap (c : Char) : Bool := c == ' ' || c == '\t'

/-- Whether the characters are a time zone, or nothing. -/
def isZone (cs : List Char) : Bool :=
  match cs.dropWhile isGap with
  | [] => cs.isEmpty
  | ['Z'] => true
  | sign :: rest =>
    (sign == '+' || sign == '-') &&
      match digits? 1 2 rest with
      | none => false
      | some [] => true
      | some ending => ((after? ':' ending).bind (digits? 2 2)) == some []

/-- Whether the characters are a time of day, perhaps with a zone. -/
def isTime (cs : List Char) : Bool :=
  match (digits? 1 2 cs).bind fun cs => (after? ':' cs).bind fun cs => (digits? 2 2 cs).bind fun cs =>
      (after? ':' cs).bind (digits? 2 2) with
  | none => false
  | some rest =>
    match rest with
    | '.' :: fraction => isZone (fraction.dropWhile Char.isDigit)
    | rest => isZone rest

/-- Whether a scalar is spelled like a date, or like a date and a time. -/
def isDate (cs : List Char) : Bool :=
  let day := fun least => (digits? 4 4 cs).bind fun cs => (after? '-' cs).bind fun cs =>
    (digits? least 2 cs).bind fun cs => (after? '-' cs).bind (digits? least 2)
  day 2 == some [] ||
    match day 1 with
    | some (c :: rest) =>
      if c = 'T' ∨ c = 't' then isTime rest
      else isGap c && isTime (rest.dropWhile isGap)
    | _ => false

/-- The value that a plain scalar stands for, if settings can hold it. -/
def resolve (cs : List Char) : Option Value :=
  let word := String.ofList cs
  if nullWords.contains word then some .null
  else if trueWords.contains word then some (.bool true)
  else if falseWords.contains word then some (.bool false)
  else if reservedWords.contains word then none
  else match real? cs with
    | some x => some (.real x)
    | none =>
      match int? cs with
      | some n => some (.int n)
      | none => if isDate cs then some (.date word) else some (.text word)

/-- Whether a plain scalar stands for the text it is. -/
def isText (cs : List Char) : Bool :=
  match resolve cs with
  | some (.text _) => true
  | _ => false

end Delimited.Yaml.Plain
