import Delimited.Proofs.Decimal.Rounding
import Delimited.Proofs.Table.Reader

/-!
# Numerals as numbers

Numerals that are rounded correctly are numbers that columns can rely on: a sign and digits
are a numeral that is written as an integer, no other numeral is, and an integer of at most
53 bits is a double.

## Main results

* `ofChars?_of_isDigit`: digits are a number that is written as an integer.
* `toNat_lt_of_ofChars?`: a numeral is made of ASCII characters.
* `Double.toInt?_ofDecimal`: an integer of at most 53 bits is a double.
* `Numeral.lawful_read`: what columns rely on holds of numerals.
-/

namespace Delimited

variable {cs : List Char} {c : Char} {x : Numeral} {z : Int}

/-! ### Integers -/

/-- Digits have no sign in front. -/
theorem splitSign_of_isDigit (h : ∀ c ∈ cs, c.isDigit = true) : splitSign cs = (false, cs) := by
  unfold splitSign
  split
  · exact absurd (h '-' (by simp)) (by decide)
  · exact absurd (h '+' (by simp)) (by decide)
  · rfl

theorem toLower_of_isDigit {c : Char} (h : c.isDigit = true) : c.toLower = c := by
  refine dif_neg fun hupper => ?_
  have hle := (Char.isDigit_iff_toNat.mp h).2
  have hge : 'A'.toNat ≤ c.toNat := hupper.1
  exact absurd (hge.trans hle) (by decide)

/-- Digits are not a word, whatever the case of its letters. -/
theorem map_toLower_ne_of_isDigit {word : List Char} (h : ∀ c ∈ cs, c.isDigit = true)
    (hword : 'i' ∈ word) : cs.map Char.toLower ≠ word := by
  have hlower : cs.map Char.toLower = cs := by
    calc
      cs.map Char.toLower = cs.map id := List.map_congr_left fun c hc => toLower_of_isDigit (h c hc)
      _ = cs := List.map_id cs
  rw [hlower]
  rintro rfl
  exact absurd (h 'i' hword) (by decide)

/-- Digits, with or without a sign in front, are a number that is written as an integer. -/
theorem ofChars?_of_isDigit {negative : Bool} {digits : List Char}
    (hsign : splitSign cs = (negative, digits)) (hne : digits ≠ [])
    (hdigits : ∀ c ∈ digits, c.isDigit = true) :
    Numeral.ofChars? cs = some (.decimal negative true (digitsValue digits) 0) := by
  rw [Numeral.ofChars?, hsign]
  dsimp only
  -- Digits are neither of the names of infinity, and nothing comes after them.
  rw [if_neg (not_or.mpr ⟨map_toLower_ne_of_isDigit hdigits (by simp),
    map_toLower_ne_of_isDigit hdigits (by simp)⟩), Numeral.unsigned?,
    List.takeWhile_eq_self_iff.mpr hdigits, List.dropWhile_eq_nil_iff.mpr hdigits]
  simp [hne, Numeral.exponent?]

/-- A number without a sign that is written as an integer is digits only. -/
theorem of_toInt?_of_unsigned? {x : Numeral} {z : Int} {negative : Bool}
    (hx : Numeral.unsigned? negative cs = some x) (hz : x.toInt? = some z) :
    (∀ c ∈ cs, c.isDigit = true) ∧ z.natAbs = digitsValue cs := by
  simp only [Numeral.unsigned?] at hx
  -- After a point, or with an exponent, a number is no integer.
  split at hx
  · split at hx
    · cases hx
    · obtain ⟨e, -, rfl⟩ := Option.map_eq_some_iff.mp hx
      simp [Numeral.toInt?] at hz
  · split at hx
    · cases hx
    · obtain ⟨e, -, rfl⟩ := Option.map_eq_some_iff.mp hx
      cases hrest : cs.dropWhile Char.isDigit with
      | cons c rest => simp [hrest, Numeral.toInt?] at hz
      | nil =>
        have hdigits := List.dropWhile_eq_nil_iff.mp hrest
        refine ⟨hdigits, ?_⟩
        rw [List.takeWhile_eq_self_iff.mpr hdigits, hrest] at hz
        simp only [List.isEmpty_nil, Numeral.toInt?, Option.some.injEq] at hz
        rw [← hz]
        cases negative <;> simp

/-- A number that is written as an integer is a sign and digits. -/
theorem of_toInt?_of_ofChars? {x : Numeral} {z : Int} (hx : Numeral.ofChars? cs = some x)
    (hz : x.toInt? = some z) :
    (∀ c ∈ (splitSign cs).2, c.isDigit = true) ∧ z.natAbs = digitsValue (splitSign cs).2 := by
  simp only [Numeral.ofChars?] at hx
  split at hx
  · cases hx
    simp [Numeral.toInt?] at hz
  · exact of_toInt?_of_unsigned? hx hz

/-- A literal is read as the integer that it stands for. -/
theorem Denotes.exists_ofChars? (h : Denotes cs z) :
    ∃ negative n, Numeral.ofChars? cs = some (.decimal negative true n 0) ∧
      Double.signed negative n = z := by
  cases h with
  | unsigned hne hdigits =>
    refine ⟨false, _, ofChars?_of_isDigit (splitSign_of_isDigit hdigits) hne hdigits, ?_⟩
    rw [digitsValue_eq, Double.signed, if_neg Bool.false_ne_true]
  | plus hne hdigits =>
    refine ⟨false, _, ofChars?_of_isDigit rfl hne hdigits, ?_⟩
    rw [digitsValue_eq, Double.signed, if_neg Bool.false_ne_true]
  | minus hne hdigits =>
    refine ⟨true, _, ofChars?_of_isDigit rfl hne hdigits, ?_⟩
    rw [digitsValue_eq, Double.signed, if_pos rfl]

/-- What is read as an integer is a literal that stands for it. -/
theorem denotes_of_toInt? (hx : Numeral.ofChars? cs = some x) (hz : x.toInt? = some z) :
    Denotes cs z := by
  have hne : (splitSign cs).2 ≠ [] := by
    -- A sign alone is no number.
    intro hnil
    simp [Numeral.ofChars?, hnil, Numeral.unsigned?] at hx
  have hrun : IsRun (·.isDigit = true) 1 cs :=
    ⟨_, List.length_pos_iff.mpr hne, (of_toInt?_of_ofChars? hx hz).1, signed_splitSign cs⟩
  obtain ⟨z', hdenotes⟩ := exists_denotes_of_isRun hrun
  obtain ⟨negative, n, hread, rfl⟩ := hdenotes.exists_ofChars?
  cases hx.symm.trans hread
  cases hz
  exact hdenotes

/-! ### The characters of a numeral -/

theorem toNat_lt_of_isDigit (h : c.isDigit = true) : c.toNat < 128 := by
  have hle := (Char.isDigit_iff_toNat.mp h).2
  have hnine : '9'.toNat = 57 := rfl
  omega

theorem toNat_lt_of_toLower (h : c.toLower.toNat < 128) : c.toNat < 128 := by
  by_cases hupper : c.val ≥ 'A'.val ∧ c.val ≤ 'Z'.val
  · have hle : c.toNat ≤ 'Z'.toNat := hupper.2
    exact hle.trans_lt (by decide)
  · have hsame : c.toLower = c := dif_neg hupper
    rwa [hsame] at h

theorem Signed.toNat_lt (h : Signed rest cs) (hrest : ∀ c ∈ rest, c.toNat < 128) :
    ∀ c ∈ cs, c.toNat < 128 := by
  rcases h with rfl | rfl | rfl
  · exact hrest
  · exact List.forall_mem_cons.mpr ⟨by decide, hrest⟩
  · exact List.forall_mem_cons.mpr ⟨by decide, hrest⟩

theorem toNat_lt_of_dropWhile (h : ∀ c ∈ cs.dropWhile Char.isDigit, c.toNat < 128) :
    ∀ c ∈ cs, c.toNat < 128 := by
  rw [← List.takeWhile_append_dropWhile (p := Char.isDigit) (l := cs), List.forall_mem_append]
  exact ⟨fun c hc => toNat_lt_of_isDigit (List.mem_takeWhile_imp hc), h⟩

theorem toNat_lt_of_exponent? {e : Int} (h : Numeral.exponent? cs = some e) :
    ∀ c ∈ cs, c.toNat < 128 := by
  cases cs with
  | nil => simp
  | cons c cs =>
    simp only [Numeral.exponent?] at h
    split at h
    · rename_i hmark
      split at h
      · rename_i hdigits
        have hrest : ∀ c ∈ (splitSign cs).2, c.toNat < 128 := fun c hc =>
          toNat_lt_of_isDigit (List.all_eq_true.mp hdigits.2 c hc)
        refine List.forall_mem_cons.mpr ⟨?_, (signed_splitSign cs).toNat_lt hrest⟩
        rcases hmark with rfl | rfl <;> decide
      · cases h
    · cases h

theorem toNat_lt_of_unsigned? {negative : Bool} (h : Numeral.unsigned? negative cs = some x) :
    ∀ c ∈ cs, c.toNat < 128 := by
  refine toNat_lt_of_dropWhile ?_
  simp only [Numeral.unsigned?] at h
  split at h
  · rename_i rest hpoint
    split at h
    · cases h
    · obtain ⟨e, he, -⟩ := Option.map_eq_some_iff.mp h
      rw [hpoint]
      refine List.forall_mem_cons.mpr ⟨by decide, ?_⟩
      exact toNat_lt_of_dropWhile (toNat_lt_of_exponent? he)
  · split at h
    · cases h
    · obtain ⟨e, he, -⟩ := Option.map_eq_some_iff.mp h
      exact toNat_lt_of_exponent? he

/-- A number is made of ASCII characters. -/
theorem toNat_lt_of_ofChars? (h : Numeral.ofChars? cs = some x) : ∀ c ∈ cs, c.toNat < 128 := by
  refine (signed_splitSign cs).toNat_lt ?_
  simp only [Numeral.ofChars?] at h
  split at h
  · rename_i hword
    intro c hc
    refine toNat_lt_of_toLower ?_
    have hlower : c.toLower ∈ (splitSign cs).2.map Char.toLower := List.mem_map_of_mem hc
    -- Both names of infinity are made of ASCII letters.
    have hascii : ∀ word ∈ ["inf".toList, "infinity".toList], ∀ d ∈ word, d.toNat < 128 := by
      simp
    rcases hword with hword | hword
    · exact hascii _ (by simp) _ (hword ▸ hlower)
    · exact hascii _ (by simp) _ (hword ▸ hlower)
  · exact toNat_lt_of_unsigned? h

/-! ### Integers as doubles -/

namespace Double

theorem roundsTo_self (m : Nat) (e : Int) : RoundsTo m e (m * 2 ^ e) := by
  have hpow : (0 : ℚ) < 2 ^ e := zpow_pos (by norm_num) e
  have hlow : (m - reach m e) * 2 ^ e < m * 2 ^ e := by
    have := reach_pos m e
    exact mul_lt_mul_of_pos_right (by linarith) hpow
  have hhigh : (m * 2 ^ e : ℚ) < (m + 1 / 2) * 2 ^ e :=
    mul_lt_mul_of_pos_right (by linarith) hpow
  exact ⟨hlow.le, hhigh.le, .inr ⟨hlow, hhigh⟩⟩

theorem exists_shift {n : Nat} (hn : n ≠ 0) (h : n < 2 ^ 53) :
    ∃ k ≤ 52, 2 ^ 52 ≤ n * 2 ^ k ∧ n * 2 ^ k < 2 ^ 53 := by
  have hbits : n.log2 < 53 := (Nat.log2_lt hn).mpr h
  have hpow : 0 < 2 ^ (52 - n.log2) := Nat.pow_pos (by decide)
  refine ⟨52 - n.log2, by omega, ?_, ?_⟩
  · calc
      2 ^ 52 = 2 ^ n.log2 * 2 ^ (52 - n.log2) := by rw [← Nat.pow_add]; congr 1; omega
      _ ≤ n * 2 ^ (52 - n.log2) := Nat.mul_le_mul_right _ (Nat.log2_self_le hn)
  · calc
      n * 2 ^ (52 - n.log2) < 2 ^ (n.log2 + 1) * 2 ^ (52 - n.log2) :=
        Nat.mul_lt_mul_of_pos_right Nat.lt_log2_self hpow
      _ = 2 ^ 53 := by rw [← Nat.pow_add]; congr 1; omega

/-- An integer of at most 53 bits is a double. -/
theorem toInt?_ofDecimal {n : Nat} (negative : Bool) (h : n < 2 ^ 53) :
    (ofDecimal negative n 0).toInt? = some (signed negative n) := by
  by_cases hn : n = 0
  · rw [hn, ofDecimal, if_pos rfl, zero, toInt?, if_pos (by simp [leastExponent]),
      if_pos (Nat.zero_mod _), Nat.zero_div]
  · -- The mantissa is the integer shifted to the left until it has 53 bits.
    obtain ⟨k, hk, hlow, hhigh⟩ := exists_shift hn h
    have hvalue : (n * 10 ^ (0 : Int) : ℚ) = (n * 2 ^ k : Nat) * 2 ^ (-k : Int) := by
      rw [zpow_neg, zpow_natCast]
      push_cast
      field_simp
    have hdouble : ofDecimal negative n 0 = finite negative (n * 2 ^ k) (-k) := by
      refine ofDecimal_eq (by positivity) ⟨?_, ?_, hhigh, .inr hlow⟩ ?_
      · simp only [leastExponent]; omega
      · simp only [greatestExponent]; omega
      · rw [hvalue]
        exact roundsTo_self _ _
    have hpow : 0 < Nat.pow 2 k := Nat.pow_pos (by decide)
    rw [hdouble, toInt?]
    by_cases hzero : k = 0
    · rw [hzero, if_neg (by simp)]
      simp
    · have hdvd : n * 2 ^ k % Nat.pow 2 k = 0 := Nat.mul_mod_left n (2 ^ k)
      rw [if_pos (by omega), neg_neg, Int.toNat_natCast, if_pos hdvd]
      exact congrArg (fun n => some (signed negative n)) (Nat.mul_div_cancel n hpow)

end Double

/-! ### Reading numerals -/

namespace Numeral

theorem read_eq_some_iff {y : Number} :
    read cs = some y ↔
      ∃ x, ofChars? cs = some x ∧ x.toInt? = y.integer? ∧ x.toDouble = y.double := by
  simp only [read, Option.map_eq_some_iff]
  refine exists_congr fun x => and_congr_right fun _ => ?_
  obtain ⟨integer?, double, hnumber⟩ := y
  simp

/-- What columns rely on holds of numerals. -/
theorem lawful_read : read.Lawful where
  integer := by
    intro cs z hdenotes hshort
    obtain ⟨negative, n, hread, hvalue⟩ := hdenotes.exists_ofChars?
    obtain ⟨digits, -, hdigits, hsigned, hz⟩ := hdenotes.exists_digits
    have hn : n < 2 ^ 53 := by
      have hlength : digits.length ≤ 15 := by
        by_contra hlong
        exact hshort ⟨digits, by omega, hdigits, hsigned⟩
      have hnatAbs : z.natAbs = n := by
        rw [← hvalue, Double.signed]
        split <;> simp
      calc
        n = digitsValue digits := hnatAbs.symm.trans hz
        _ < 10 ^ digits.length := digitsValue_lt hdigits
        _ ≤ 10 ^ 15 := Nat.pow_le_pow_right (by decide) hlength
        _ < 2 ^ 53 := by decide
    refine ⟨⟨some z, .ofDecimal negative n 0, Double.ofDecimal_ne_nan _ _ _⟩,
      read_eq_some_iff.mpr ⟨_, hread, congrArg some hvalue, rfl⟩, rfl, ?_⟩
    exact (Double.toInt?_ofDecimal negative hn).trans (congrArg some hvalue)
  denotes := by
    intro cs y z hy hz
    obtain ⟨x, hx, hinteger, -⟩ := read_eq_some_iff.mp hy
    exact denotes_of_toInt? hx (hinteger.trans hz)
  ascii := by
    intro cs y hy
    obtain ⟨x, hx, -⟩ := read_eq_some_iff.mp hy
    exact toNat_lt_of_ofChars? hx
  nan := by decide

end Numeral

end Delimited
