/-!
# Doubles

A double is a binary fraction with 53 significant bits and a bounded exponent,
or one of the special values. All arithmetic on doubles is done exactly on
natural numbers and then rounded once, to the nearest double, a tie going to the
double with the even mantissa.

## Main definitions

* `Double`: finite doubles, infinities and the value that is not a number.
* `roundHalfEven`: the nearest integer of a quotient.
* `Double.ofRatio`: the double nearest to a quotient.
* `Double.ofDecimal`: the double nearest to a decimal fraction.
-/

namespace Delimited

/-- A double. The finite ones stand for `± mantissa * 2 ^ exponent`, with
`exponent` at least `-1074`, `mantissa` below `2 ^ 53`, and at least `2 ^ 52`
when the exponent is not the least one. -/
inductive Double where
  /-- Not a number. -/
  | nan
  /-- An infinity. -/
  | infinite (negative : Bool)
  /-- A number. -/
  | finite (negative : Bool) (mantissa : Nat) (exponent : Int)
  deriving DecidableEq, Repr

/-- The integer nearest to `n / d`, a tie going to the even one. -/
def roundHalfEven (n d : Nat) : Nat :=
  let q := n / d
  let r := n % d
  if 2 * r < d then q
  else if d < 2 * r then q + 1
  else if q % 2 = 0 then q else q + 1

namespace Double

/-- The least exponent of a double. -/
def leastExponent : Int := -1074

/-- The greatest exponent of a double. -/
def greatestExponent : Int := 971

/-- The double zero. -/
def zero (negative : Bool) : Double := finite negative 0 leastExponent

/-- The quotient `n / d / 2 ^ e` as numerator and denominator. -/
def scaled (n d : Nat) (e : Int) : Nat × Nat :=
  if e < 0 then (n * Nat.pow 2 (-e).toNat, d) else (n, d * Nat.pow 2 e.toNat)

/-- The double `mantissa * 2 ^ e`, where the mantissa may have reached `2 ^ 53`. -/
def pack (negative : Bool) (mantissa : Nat) (e : Int) : Double :=
  let (m, e) := if mantissa = Nat.pow 2 53 then (Nat.pow 2 52, e + 1) else (mantissa, e)
  if greatestExponent < e then infinite negative else finite negative m e

/-- The exponent at which `n / d` has 53 significant bits, or the least one. -/
def exponentFor (n d : Nat) : Int :=
  let e := max leastExponent ((n.log2 : Int) - d.log2 - 53)
  let (p, q) := scaled n d e
  if Nat.pow 2 53 ≤ p / q then e + 1 else e

/-- The double nearest to `n / d`. -/
def ofRatio (negative : Bool) (n d : Nat) : Double :=
  if n = 0 then zero negative
  else
    let e := exponentFor n d
    let (p, q) := scaled n d e
    pack negative (roundHalfEven p q) e

/-- The number of decimal digits of a number. -/
def digitCount (n : Nat) : Nat := (Nat.toDigits 10 n).length

/-- The double nearest to `digits * 10 ^ e`. Numbers that are far too large or
too small are not computed. -/
def ofDecimal (negative : Bool) (digits : Nat) (e : Int) : Double :=
  if digits = 0 then zero negative
  else if 400 < (digitCount digits : Int) + e then infinite negative
  else if (digitCount digits : Int) + e < -400 then zero negative
  else if e < 0 then ofRatio negative digits (Nat.pow 10 (-e).toNat)
  else ofRatio negative (digits * Nat.pow 10 e.toNat) 1

theorem pack_ne_nan (negative : Bool) (m : Nat) (e : Int) : pack negative m e ≠ .nan := by
  simp only [pack]
  split <;> split <;> nofun

theorem ofRatio_ne_nan (negative : Bool) (n d : Nat) : ofRatio negative n d ≠ .nan := by
  unfold ofRatio
  split
  · nofun
  · exact pack_ne_nan _ _ _

/-- Every decimal fraction is rounded to a number. -/
theorem ofDecimal_ne_nan (negative : Bool) (digits : Nat) (e : Int) :
    ofDecimal negative digits e ≠ .nan := by
  unfold ofDecimal
  split
  · nofun
  split
  · nofun
  split
  · nofun
  split
  · exact ofRatio_ne_nan _ _ _
  · exact ofRatio_ne_nan _ _ _

/-- The double nearest to an integer. -/
def ofInt (n : Int) : Double := ofRatio (n < 0) n.natAbs 1

/-- An integer with a sign. -/
def signed (negative : Bool) (n : Nat) : Int := if negative then -(n : Int) else n

/-- The integer that a double is, if it is one. -/
def toInt? : Double → Option Int
  | finite negative m e =>
    if e < 0 then
      if m % Nat.pow 2 (-e).toNat = 0 then some (signed negative (m / Nat.pow 2 (-e).toNat))
      else none
    else some (signed negative (m * Nat.pow 2 e.toNat))
  | _ => none

end Double

end Delimited
