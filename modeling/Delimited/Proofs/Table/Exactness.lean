import Delimited.Proofs.Table.Inference
import Delimited.Proofs.Table.Layout

/-!
# Exact integers

What the two tests for codes leave of the integers has at most fifteen digits, which is
what a reader has to read exactly. Such an integer is below `2 ^ 53`, and digits without a
zero in front are the digits that the integer is written with.

## Main definitions

* `plainForm`: a literal as the integer is written.

## Main results

* `toDigits_digitsValue`: digits without a zero in front are written again.
* `Denotes.toList_toString`: the text of an integer that was read.
* `inferNumbers_exact`: the integers in the columns of a table.
-/

namespace Delimited

variable {read : NumberReader} {digit : Char → Prop} {cs digits : List Char} {z : Int}

/-! ### Integers written again -/

/-- A literal without a plus sign, and without a minus sign in front of a single zero. -/
def plainForm : List Char → List Char
  | '+' :: digits => digits
  | ['-', '0'] => ['0']
  | cs => cs

theorem toDigits_digitsValue_singleton {c : Char} (h : c.isDigit = true) :
    Nat.toDigits 10 (digitsValue [c]) = [c] := by
  have hvalue : digitsValue [c] = c.toNat - '0'.toNat := by simp [digitsValue]
  have hlt := toNat_sub_lt_of_isDigit h
  have hge := (Char.isDigit_iff_toNat.mp h).1
  have hzero : '0'.toNat = 48 := rfl
  rw [hvalue, Nat.toDigits_of_lt_base hlt, List.cons.injEq, ← Char.toNat_inj,
    Nat.toNat_digitChar_of_lt_ten hlt]
  exact ⟨by omega, rfl⟩

/-- Digits are the digits of their number if no zero stands before others. -/
theorem toDigits_digitsValue (hne : digits ≠ []) (hdigits : ∀ c ∈ digits, c.isDigit = true)
    (hzero : ∀ rest, digits = '0' :: rest → rest = []) :
    Nat.toDigits 10 (digitsValue digits) = digits := by
  -- The induction is from the end, where a division by ten splits off a digit.
  induction digits using List.reverseRecOn with
  | nil => exact absurd rfl hne
  | append_singleton front last ih =>
    obtain ⟨hfront, hlast⟩ := List.forall_mem_append.mp hdigits
    have hc : last.isDigit = true := hlast last (by simp)
    by_cases hnil : front = []
    · rw [hnil, List.nil_append, toDigits_digitsValue_singleton hc]
    · have hrest : Nat.toDigits 10 (digitsValue front) = front := by
        refine ih hnil hfront fun rest hrest => ?_
        have := hzero (rest ++ [last]) (by rw [hrest, List.cons_append])
        simp at this
      -- The digits in front are not a zero, since another digit comes after them.
      have hpos : 0 < digitsValue front := by
        refine Nat.pos_of_ne_zero fun hvalue => ?_
        rw [hvalue, Nat.toDigits_zero] at hrest
        have := hzero [last] (by rw [← hrest]; rfl)
        simp at this
      have hlt : digitsValue [last] < 10 := digitsValue_lt hlast
      calc
        Nat.toDigits 10 (digitsValue (front ++ [last]))
            = Nat.toDigits 10 (10 * digitsValue front + digitsValue [last]) := by
          rw [digitsValue_append, List.length_singleton, pow_one]
        _ = Nat.toDigits 10 (digitsValue front) ++ Nat.toDigits 10 (digitsValue [last]) :=
          (Nat.toDigits_append_toDigits (by decide) hpos hlt).symm
        _ = front ++ [last] := by rw [hrest, toDigits_digitsValue_singleton hc]

theorem plainForm_of_isDigit (h : ∀ c ∈ digits, c.isDigit = true) : plainForm digits = digits := by
  unfold plainForm
  split
  · exact absurd (h '+' (by simp)) (by decide)
  · exact absurd (h '-' (by simp)) (by decide)
  · rfl

/-- An integer that was read from a cell that is no code is written as the cell, signs that
say nothing apart. -/
theorem Denotes.toList_toString (h : Denotes cs z) (hcode : isCode cs = false) :
    (toString z).toList = plainForm cs := by
  have hpadded : ¬ IsPadded (·.isDigit = true) cs := fun hpadded =>
    absurd (isCode_eq_true_iff.mpr (.inl hpadded)) (by simp [hcode])
  -- No zero stands before other digits.
  have hdigits {digits : List Char} (hsigned : Signed digits cs) (hne : digits ≠ [])
      (h : ∀ c ∈ digits, c.isDigit = true) :
      Nat.toDigits 10 (Nat.ofDigitChars 10 digits 0) = digits := by
    rw [← digitsValue_eq]
    refine toDigits_digitsValue hne h fun rest hrest => ?_
    cases rest with
    | nil => rfl
    | cons c rest => exact absurd ⟨c, rest, h c (by simp [hrest]), hrest ▸ hsigned⟩ hpadded
  rw [toList_toString_int]
  cases h with
  | unsigned hne h =>
    rw [if_neg (by simp), Int.natAbs_natCast, hdigits (.inl rfl) hne h, plainForm_of_isDigit h]
    rfl
  | plus hne h =>
    rw [if_neg (by simp), Int.natAbs_natCast, hdigits (.inr (.inl rfl)) hne h]
    rfl
  | @minus digits hne h =>
    have hwritten := hdigits (.inr (.inr rfl)) hne h
    rw [Int.natAbs_neg, Int.natAbs_natCast, hwritten]
    by_cases hzero : Nat.ofDigitChars 10 digits 0 = 0
    · rw [hzero, Nat.toDigits_zero] at hwritten
      rw [hzero, ← hwritten]
      rfl
    · rw [if_pos (by omega)]
      have hother : digits ≠ ['0'] := by
        rintro rfl
        exact hzero rfl
      unfold plainForm
      split
      · rename_i heq
        cases heq
      · rename_i heq
        exact absurd (List.cons.inj heq).2 hother
      · rfl

/-! ### Columns -/

namespace Cells

variable {texts : List String} {r : Nat} {s : String}

/-- A column of integers has in each place the integer that the text stands for. -/
theorem denotes_of_infer_integer (hread : read.Lawful) {integers : List Int}
    (h : infer read texts = some (.integer integers)) (hs : texts[r]? = some s) :
    ∃ z, integers[r]? = some z ∧ isCode (Text.stripChars s.toList) = false ∧
      Denotes (Text.stripChars s.toList) z := by
  obtain ⟨hlength, hcells⟩ := List.forall₂_iff_get.mp (infer_eq_integer_iff.mp h).2
  obtain ⟨hr, rfl⟩ := List.getElem?_eq_some_iff.mp hs
  exact ⟨_, List.getElem?_eq_getElem _, (hcells r hr (hlength ▸ hr)).denotes hread⟩

/-- A column of doubles has in the place of an integer the double that is this integer. -/
theorem denotes_of_infer_real (hread : read.Lawful) (hdigit : IsDigitClass digit)
    {numbers : List (Option Double)} (h : infer read texts = some (.real numbers))
    (hs : texts[r]? = some s) (hrun : IsRun digit 1 (Text.stripChars s.toList)) :
    ∃ z x, Denotes (Text.stripChars s.toList) z ∧ z.natAbs < 10 ^ 15 ∧
      numbers[r]? = some (some x) ∧ x.toInt? = some z := by
  -- The text is not blank, so it is one of those that have to be numbers.
  have hblank : Text.stripChars s.toList ≠ [] := by
    rintro hnil
    obtain ⟨digits, hlength, -, hsigned⟩ := hrun
    rw [hnil] at hsigned
    simp only [Signed, List.nil_eq, reduceCtorEq, or_self, or_false] at hsigned
    simp [hsigned] at hlength
  obtain ⟨hcode, y, hy⟩ :=
    (exists_infer_eq_some_iff.mp ⟨_, h⟩).2 s (List.mem_of_getElem? hs) hblank
  obtain ⟨z, hdenotes⟩ := exists_denotes_of_isRun
    ((isRun_congr (hread.digit_iff hdigit hy)).mp hrun)
  obtain ⟨x, hx, -, hvalue⟩ := hread.integer hdenotes (isCode_eq_false_iff.mp hcode).2
  refine ⟨z, x.double, hdenotes, hdenotes.natAbs_lt hcode, ?_, hvalue⟩
  rw [eq_map_of_infer h, List.getElem?_map, hs, Option.map_some,
    NumberReader.cell_of_ne_nil hblank, hx, Option.map_some]

/-- A column of texts that is typed now was converted. -/
theorem infer_eq_some_of_getD {cells : Cells}
    (h : (infer read texts).getD (.untyped texts) = cells) (hnumeric : cells.isNumeric = true) :
    infer read texts = some cells := by
  cases hinfer : infer read texts with
  | none =>
    rw [hinfer, Option.getD_none] at h
    rw [← h] at hnumeric
    cases hnumeric
  | some cells' => rw [← h, hinfer, Option.getD_some]

end Cells

/-- An integer in a table of texts is found exactly. In a column of integers it is what the
text says and is written as the text, a plus sign and the sign of a zero apart. In a column
of doubles it is a double. -/
theorem inferNumbers_exact (hread : read.Lawful) (hdigit : IsDigitClass digit) {t : Table}
    (hagain : t.names.Nodup ∨ read.ReadsBack)
    (htexts : ∀ column ∈ t.columns,
      ∃ texts, column.cells = .untyped texts ∧ texts.length = t.rows) :
    t.inferNamed read t.names = .ok (t.inferNumbers read) ∧
      ∀ (i : Nat) (name : String) (texts : List String),
        t.columns[i]? = some ⟨name, .untyped texts⟩ →
          (∀ integers, (t.inferNumbers read).columns[i]? = some ⟨name, .integer integers⟩ →
            integers.length = t.rows ∧
              ∀ (r : Nat) (s : String), texts[r]? = some s →
                ∃ z, integers[r]? = some z ∧ Denotes (Text.stripChars s.toList) z ∧
                  z.natAbs < 10 ^ 15 ∧
                  (t.inferNumbers read).records.field? (r + 1) i =
                    some (String.ofList (plainForm (Text.stripChars s.toList)))) ∧
          ∀ numbers, (t.inferNumbers read).columns[i]? = some ⟨name, .real numbers⟩ →
            ∀ (r : Nat) (s : String), texts[r]? = some s →
              IsRun digit 1 (Text.stripChars s.toList) →
                ∃ z x, Denotes (Text.stripChars s.toList) z ∧ z.natAbs < 10 ^ 15 ∧
                  numbers[r]? = some (some x) ∧ x.toInt? = some z := by
  refine ⟨t.inferNamed_names hread hagain, fun i name texts hi => ?_⟩
  have hcolumn : (t.inferNumbers read).columns[i]? =
      some ⟨name, (Cells.infer read texts).getD (.untyped texts)⟩ := by
    rw [Table.inferNumbers, List.getElem?_map, hi]
    rfl
  have hrows : texts.length = t.rows := by
    obtain ⟨_, ⟨⟩, hlength⟩ := htexts _ (List.mem_of_getElem? hi)
    exact hlength
  refine ⟨fun integers hintegers => ?_, fun numbers hnumbers r s hs hrun => ?_⟩
  · have hcells := hcolumn.symm.trans hintegers
    simp only [Option.some.injEq, Column.mk.injEq, true_and] at hcells
    have hinfer := Cells.infer_eq_some_of_getD hcells rfl
    refine ⟨(Cells.forall₂_integerOf hinfer).length_eq ▸ hrows, fun r s hs => ?_⟩
    obtain ⟨z, hz, hcode, hdenotes⟩ := Cells.denotes_of_infer_integer hread hinfer hs
    have hr : r < (t.inferNumbers read).rows := hrows ▸ (List.getElem?_eq_some_iff.mp hs).1
    refine ⟨z, hz, hdenotes, hdenotes.natAbs_lt hcode, ?_⟩
    rw [Table.field?_records hintegers hr, Cells.texts, List.getElem?_map, hz, Option.map_some,
      Option.getD_some, ← hdenotes.toList_toString hcode, String.ofList_toList]
  · have hcells := hcolumn.symm.trans hnumbers
    simp only [Option.some.injEq, Column.mk.injEq, true_and] at hcells
    exact Cells.denotes_of_infer_real hread hdigit (Cells.infer_eq_some_of_getD hcells rfl) hs hrun

/-- Signs and blanks around integers, and an integer among other numbers. -/
theorem inferNumbers_exact_signs :
    let t : Table := ⟨3, [⟨"count", .untyped [" +20 ", "-0", "-3"]⟩,
      ⟨"price", .untyped ["1.5", "", "-7"]⟩]⟩
    IsDigitClass (·.isDigit = true) ∧
      (t.inferNumbers Numeral.read).columns = [⟨"count", .integer [20, 0, -3]⟩, ⟨"price",
        .real [some (.finite false 6755399441055744 (-52)), none,
          some (.finite true 7881299347898368 (-50))]⟩] ∧
      Denotes "+20".toList 20 ∧ (t.inferNumbers Numeral.read).records.field? 1 0 = some "20" ∧
      Denotes "-0".toList 0 ∧ (t.inferNumbers Numeral.read).records.field? 2 0 = some "0" ∧
      Denotes "-3".toList (-3) ∧ (t.inferNumbers Numeral.read).records.field? 3 0 = some "-3" ∧
      ∃ z, Denotes "-7".toList z ∧ z.natAbs < 10 ^ 15 ∧
        (Double.finite true 7881299347898368 (-50)).toInt? = some z := by
  intro t
  have hdigit : IsDigitClass (·.isDigit = true) := fun _ _ => Iff.rfl
  obtain ⟨-, hcolumns⟩ := inferNumbers_exact Numeral.lawful_read hdigit (t := t)
    (.inr Numeral.readsBack_read) (by simp [t])
  have htyped : (t.inferNumbers Numeral.read).columns = [⟨"count", .integer [20, 0, -3]⟩, ⟨"price",
      .real [some (.finite false 6755399441055744 (-52)), none,
        some (.finite true 7881299347898368 (-50))]⟩] := by
    decide +kernel
  obtain ⟨-, hcells⟩ := (hcolumns 0 "count" _ rfl).1 _ (by rw [htyped]; rfl)
  obtain ⟨_, ⟨⟩, hplus, -, hplus'⟩ := hcells 0 " +20 " rfl
  obtain ⟨_, ⟨⟩, hzero, -, hzero'⟩ := hcells 1 "-0" rfl
  obtain ⟨_, ⟨⟩, hminus, -, hminus'⟩ := hcells 2 "-3" rfl
  obtain ⟨z, _, hdenotes, hsmall, ⟨⟩, hx⟩ := (hcolumns 1 "price" _ rfl).2 _ (by rw [htyped]; rfl)
    2 "-7" rfl ⟨['7'], by simp, by simp, .inr (.inr rfl)⟩
  exact ⟨hdigit, htyped, hplus, hplus', hzero, hzero', hminus, hminus', z, hdenotes, hsmall, hx⟩

end Delimited
