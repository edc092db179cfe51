import Delimited.Decimal.Double

/-!
# The shortest decimal of a double

A double is written with the fewest digits that read back as that double, and
of these with the digits nearest to it.

## Main definitions

* `Shortest.Interval`: the numbers that round to a double, over one denominator.
* `Shortest.search`: the first number of digits that has a hit.
* `Double.shortest`: digits and exponent of the shortest decimal.
* `NumberFormat`: where positional notation ends.
* `Double.render`: the text of a double.
-/

namespace Delimited

namespace Shortest

/-- The numbers that round to a double: from `low` to `high` around `value`, all
three over `unit`, the ends belonging to it or not. -/
structure Interval where
  /-- The lower end. -/
  low : Nat
  /-- The double itself. -/
  value : Nat
  /-- The upper end. -/
  high : Nat
  /-- The common denominator. -/
  unit : Nat
  /-- Whether the ends round to the double as well. -/
  closed : Bool

/-- The interval of a double that is not zero. Below a power of two the doubles
lie twice as dense. -/
def Interval.ofDouble (mantissa : Nat) (exponent : Int) : Interval :=
  let below := if mantissa = Nat.pow 2 52 ∧ exponent ≠ Double.leastExponent then 1 else 2
  let (factor, unit) := Double.scaled 1 1 (2 - exponent)
  { low := (4 * mantissa - below) * factor
    value := 4 * mantissa * factor
    high := (4 * mantissa + 2) * factor
    unit := unit
    closed := mantissa % 2 == 0 }

/-- The interval in units of `10 ^ p`. -/
def Interval.inUnits (i : Interval) (p : Int) : Interval :=
  if p < 0 then
    let f := Nat.pow 10 (-p).toNat
    { i with low := i.low * f, value := i.value * f, high := i.high * f }
  else { i with unit := i.unit * Nat.pow 10 p.toNat }

/-- Whether an integer lies in the interval. -/
def Interval.has (i : Interval) (d : Nat) : Bool :=
  if i.closed then decide (i.low ≤ d * i.unit ∧ d * i.unit ≤ i.high)
  else decide (i.low < d * i.unit ∧ d * i.unit < i.high)

/-- Of the two integers around the value, the one that lies in the interval; if
both do, the nearer, and of two equally near the even one. -/
def Interval.nearest? (i : Interval) : Option Nat :=
  let d := i.value / i.unit
  match i.has d, i.has (d + 1) with
  | true, true => some (roundHalfEven i.value i.unit)
  | true, false => some d
  | false, true => some (d + 1)
  | false, false => none

/-- The number of digits before the point: the `k` with
`10 ^ (k - 1) ≤ value < 10 ^ k`. -/
def magnitude (i : Interval) : Int :=
  let k : Int := (Double.digitCount i.value : Int) - Double.digitCount i.unit
  let j := i.inUnits k
  if j.unit ≤ j.value then k + 1 else k

/-- Tries `digits`, `digits + 1`, … digits, `tries` times, for a hit. -/
def search (i : Interval) (k : Int) : Nat → Nat → Nat × Int
  | 0, digits =>
    let p := k - digits
    let j := i.inUnits p
    (roundHalfEven j.value j.unit, p)
  | tries + 1, digits =>
    let p := k - digits
    match (i.inUnits p).nearest? with
    | some d => (d, p)
    | none => search i k tries (digits + 1)

/-- The decimal `d * 10 ^ p` without zeros at the end of its digits. -/
def dropZeros (d : Nat) (p : Int) : Nat × Int :=
  if _more : d ≠ 0 ∧ d % 10 = 0 then dropZeros (d / 10) (p + 1) else (d, p)
termination_by d
decreasing_by omega

end Shortest

/-- The digits `d` and the exponent `p` of the shortest decimal `d * 10 ^ p` of
the number `mantissa * 2 ^ exponent`. -/
def Double.shortest (mantissa : Nat) (exponent : Int) : Nat × Int :=
  if mantissa = 0 then (0, 0)
  else
    let i := Shortest.Interval.ofDouble mantissa exponent
    let (d, p) := Shortest.search i (Shortest.magnitude i) 17 1
    Shortest.dropZeros d p

/-- Where positional notation ends. -/
structure NumberFormat where
  /-- The least exponent of the first digit that is written positionally. -/
  least : Int
  /-- The least exponent of the first digit that is too large for it. -/
  bound : Int
  /-- The least number of digits of a written exponent. -/
  exponentWidth : Nat

/-- Numbers from `0.0001` up to sixteen digits are written positionally, and an
exponent has at least two digits. -/
def NumberFormat.cells : NumberFormat := ⟨-4, 16, 2⟩

namespace NumberFormat

/-- The text of an exponent, with its sign. -/
def exponentText (format : NumberFormat) (e : Int) : String :=
  let digits := toString e.natAbs
  let zeros := String.ofList (List.replicate (format.exponentWidth - digits.length) '0')
  (if e < 0 then "e-" else "e+") ++ zeros ++ digits

/-- Digits with a point after the first `n`, filled with zeros on both sides so
that each side has a digit. -/
def positional (digits : List Char) (n : Int) : String :=
  if n ≤ 0 then
    "0." ++ String.ofList (List.replicate (-n).toNat '0' ++ digits)
  else
    let whole := digits.take n.toNat
    let fraction := digits.drop n.toNat
    String.ofList (whole ++ List.replicate (n.toNat - whole.length) '0') ++ "." ++
      (if fraction.isEmpty then "0" else String.ofList fraction)

/-- The text of `d * 10 ^ p`. -/
def decimal (format : NumberFormat) (d : Nat) (p : Int) : String :=
  let digits := Nat.toDigits 10 d
  let e : Int := digits.length - 1 + p
  if format.least ≤ e ∧ e < format.bound then positional digits (e + 1)
  else
    String.ofList (digits.take 1) ++
      (if digits.length = 1 then "" else "." ++ String.ofList (digits.drop 1)) ++
      format.exponentText e

end NumberFormat

/-- The text of a double. -/
def Double.render (format : NumberFormat) : Double → String
  | nan => "nan"
  | infinite negative => if negative then "-inf" else "inf"
  | finite negative mantissa exponent =>
    let (d, p) := Double.shortest mantissa exponent
    (if negative then "-" else "") ++ format.decimal d p

end Delimited
