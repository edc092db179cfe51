import Delimited.Proofs.Table.Literal

/-!
# Readers of numbers

What reads cells as numbers comes from outside, and little is relied on. Integers of at most
fifteen digits are read as they stand, and nothing but a sign and digits is read as an
integer. All else is up to the reader: which other cells are numbers, and to which double a
decimal is rounded. Only a column that is converted twice depends on more, namely that the
text of a double is read as the double.

## Main definitions

* `NumberReader.Lawful`: what columns rely on.
* `NumberReader.ReadsBack`: doubles that are written out are read again.
-/

namespace Delimited.NumberReader

variable {read : NumberReader} {digit : Char → Prop} {cs : List Char} {x : Number}

/-- What columns rely on in a reader. -/
structure Lawful (read : NumberReader) : Prop where
  /-- A sign, if there is one, and at most fifteen digits are read as the integer that they
  stand for, and as the double that is this integer. -/
  integer : ∀ {cs z}, Denotes cs z → ¬ IsRun (·.isDigit = true) 16 cs →
    ∃ x, read cs = some x ∧ x.integer? = some z ∧ x.double.toInt? = some z
  /-- What is read as an integer is a sign and digits that stand for it. -/
  denotes : ∀ {cs x z}, read cs = some x → x.integer? = some z → Denotes cs z
  /-- A number is made of ASCII characters. -/
  ascii : ∀ {cs x}, read cs = some x → ∀ c ∈ cs, c.toNat < 128
  /-- The text of a missing number is no number. -/
  nan : read "nan".toList = none

/-- The text of a double that was read is read as the same double, if it is read at all. -/
def ReadsBack (read : NumberReader) : Prop :=
  ∀ cs x y, read cs = some x → read (x.double.render .cells).toList = some y →
    y.double = x.double

theorem cell_eq_some_iff : read.cell cs = some x ↔ cs ≠ [] ∧ read cs = some x := by
  unfold cell
  split <;> simp [*]

@[simp] theorem cell_nil : read.cell [] = none := rfl

theorem cell_of_ne_nil (h : cs ≠ []) : read.cell cs = read cs := if_neg h

/-- In a number, the digits of any class are the ten digits. -/
theorem Lawful.digit_iff (hread : read.Lawful) (hdigit : IsDigitClass digit)
    (h : read cs = some x) : ∀ c ∈ cs, (digit c ↔ c.isDigit = true) :=
  fun c hc => hdigit c (hread.ascii h c hc)

/-- A number that is no code is read as an integer when it is a run of digits. -/
theorem Lawful.exists_integer?_iff (hread : read.Lawful) (hdigit : IsDigitClass digit)
    (hcode : isCode cs = false) (h : read cs = some x) :
    (∃ z, x.integer? = some z) ↔ IsRun digit 1 cs := by
  rw [isRun_congr (hread.digit_iff hdigit h)]
  constructor
  · rintro ⟨z, hz⟩
    exact (hread.denotes h hz).isRun
  · intro hrun
    obtain ⟨z, hdenotes⟩ := exists_denotes_of_isRun hrun
    obtain ⟨y, hy, hz, -⟩ := hread.integer hdenotes (isCode_eq_false_iff.mp hcode).2
    obtain rfl : x = y := Option.some.inj (h.symm.trans hy)
    exact ⟨z, hz⟩

end Delimited.NumberReader
