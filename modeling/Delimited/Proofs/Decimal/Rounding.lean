import Delimited.Decimal.Double
import Mathlib.Algebra.Order.Field.Power
import Mathlib.Data.Nat.Log
import Mathlib.Tactic.FieldSimp
import Mathlib.Tactic.Linarith
import Mathlib.Tactic.NormNum
import Mathlib.Tactic.Positivity
import Mathlib.Tactic.Ring

/-!
# Rounding to doubles

A quotient is rounded to the double whose rounding interval holds it. The interval
reaches half way to the neighbours of the double, which below a power of two are
twice as near, and its ends belong to it when the mantissa is even. Every double that
is made by rounding is in normal form.

## Main definitions

* `Double.Proper`: the doubles in normal form.
* `Double.IsScale`: the exponent that a number has as a double.
* `Double.RoundsTo`: the numbers that round to a double.

## Main results

* `roundHalfEven_eq`: the integer that a quotient is rounded to.
* `Double.isScale_exponentFor`: the exponent is found.
* `Double.ofRatio_eq`, `Double.ofDecimal_eq`: what rounds to a double is read as it.
* `Double.proper_ofRatio`: a rounded quotient is in normal form.
-/

namespace Delimited

/-! ### Rounding to integers -/

section

variable {n d m : Nat}

theorem le_roundHalfEven (n d : Nat) : n / d ≤ roundHalfEven n d := by
  unfold roundHalfEven
  grind

theorem roundHalfEven_le (n d : Nat) : roundHalfEven n d ≤ n / d + 1 := by
  unfold roundHalfEven
  grind

/-- A quotient is rounded to an integer that is less than a half away, or is even and
not further away than a half. -/
theorem roundHalfEven_eq (hd : 0 < d) (hlow : (m : ℚ) - 1 / 2 ≤ n / d)
    (hhigh : (n / d : ℚ) ≤ m + 1 / 2)
    (htie : m % 2 = 0 ∨ (m : ℚ) - 1 / 2 < n / d ∧ (n / d : ℚ) < m + 1 / 2) :
    roundHalfEven n d = m := by
  have hd' : (0 : ℚ) < d := by exact_mod_cast hd
  -- The same without fractions.
  have hlow' : 2 * (m * d) ≤ 2 * n + d := by
    rw [le_div_iff₀ hd'] at hlow
    have hcast : (2 * (m * d) : ℚ) ≤ 2 * n + d := by linarith
    exact_mod_cast hcast
  have hhigh' : 2 * n ≤ 2 * (m * d) + d := by
    rw [div_le_iff₀ hd'] at hhigh
    have hcast : (2 * n : ℚ) ≤ 2 * (m * d) + d := by linarith
    exact_mod_cast hcast
  have htie' : m % 2 = 0 ∨ 2 * (m * d) < 2 * n + d ∧ 2 * n < 2 * (m * d) + d := by
    refine htie.imp_right fun hin => ?_
    obtain ⟨hl, hh⟩ := hin
    rw [lt_div_iff₀ hd'] at hl
    rw [div_lt_iff₀ hd'] at hh
    have hcast : (2 * (m * d) : ℚ) < 2 * n + d ∧ (2 * n : ℚ) < 2 * (m * d) + d := by
      constructor <;> linarith
    exact_mod_cast hcast
  have hdiv := Nat.div_add_mod n d
  have hmod := Nat.mod_lt n hd
  -- The integer is the quotient or the next one.
  have hle : n / d ≤ m := by
    by_contra hgt
    have hmul : d * (m + 1) ≤ d * (n / d) := Nat.mul_le_mul_left d (by omega)
    rw [Nat.mul_succ, Nat.mul_comm d m] at hmul
    omega
  have hge : m ≤ n / d + 1 := by
    by_contra hlt
    have hmul : d * (n / d + 2) ≤ d * m := Nat.mul_le_mul_left d (by omega)
    rw [Nat.mul_add, Nat.mul_comm d m] at hmul
    omega
  rw [roundHalfEven]
  obtain rfl | rfl : m = n / d ∨ m = n / d + 1 := by omega
  · rw [Nat.mul_comm] at hhigh' htie'
    grind
  · rw [Nat.add_mul, Nat.mul_comm] at hlow' htie'
    grind

end

namespace Double

variable {negative : Bool} {n d m : Nat} {e p : Int} {x : ℚ}

/-! ### Exponents -/

theorem pos_scaled (hd : 0 < d) (n : Nat) (e : Int) : 0 < (scaled n d e).2 := by
  unfold scaled
  split
  · exact hd
  · exact Nat.mul_pos hd (Nat.pow_pos (by decide))

theorem scaled_div (n d : Nat) (e : Int) :
    ((scaled n d e).1 / (scaled n d e).2 : ℚ) = n / d / 2 ^ e := by
  unfold scaled
  split
  · rename_i he
    obtain ⟨k, rfl⟩ : ∃ k : Nat, e = -k := ⟨(-e).toNat, by omega⟩
    simp [zpow_neg, div_eq_mul_inv]
    ring
  · rename_i he
    obtain ⟨k, rfl⟩ : ∃ k : Nat, e = k := ⟨e.toNat, by omega⟩
    simp [div_div]

/-- The exponent at which `x` has 53 significant bits, or the least one if it has fewer. -/
structure IsScale (x : ℚ) (e : Int) : Prop where
  least_le : leastExponent ≤ e
  lt : x < 2 ^ 53 * 2 ^ e
  le : e = leastExponent ∨ 2 ^ 52 * 2 ^ e ≤ x

/-- A number has one exponent. -/
theorem IsScale.unique {e' : Int} (h : IsScale x e) (h' : IsScale x e') : e = e' := by
  have hle {a b : Int} (ha : IsScale x a) (hb : IsScale x b) : b ≤ a := by
    -- With 53 bits at the greater exponent there would be more of them at the smaller one.
    by_contra hlt
    have hfull : (2 : ℚ) ^ 52 * 2 ^ b ≤ x := by
      refine hb.le.resolve_left ?_
      have := ha.least_le
      omega
    have hstep : (2 : ℚ) ^ (a + 1) ≤ 2 ^ b := zpow_le_zpow_right₀ (by norm_num) (by omega)
    rw [zpow_add_one₀ (by norm_num)] at hstep
    have := ha.lt
    linarith
  exact le_antisymm (hle h' h) (hle h h')

/-- The logarithms of numerator and denominator give the exponent up to one. -/
theorem log2_bounds (hn : n ≠ 0) (hd : d ≠ 0) :
    (2 : ℚ) ^ ((n.log2 : Int) - d.log2 - 1) < n / d ∧
      (n / d : ℚ) < 2 ^ ((n.log2 : Int) - d.log2 + 1) := by
  have hlow (k : Nat) (hk : k ≠ 0) : (2 : ℚ) ^ (k.log2 : Int) ≤ k := by
    exact_mod_cast Nat.log2_self_le hk
  have hhigh (k : Nat) : (k : ℚ) < 2 ^ ((k.log2 : Int) + 1) := by
    exact_mod_cast Nat.lt_log2_self (n := k)
  have hd' : (0 : ℚ) < d := by exact_mod_cast Nat.pos_of_ne_zero hd
  constructor
  · rw [lt_div_iff₀ hd']
    calc
      (2 : ℚ) ^ ((n.log2 : Int) - d.log2 - 1) * d
          < 2 ^ ((n.log2 : Int) - d.log2 - 1) * 2 ^ ((d.log2 : Int) + 1) :=
            mul_lt_mul_of_pos_left (hhigh d) (by positivity)
      _ = 2 ^ (n.log2 : Int) := by
        rw [← zpow_add₀ (by norm_num)]
        congr 1
        ring
      _ ≤ n := hlow n hn
  · rw [div_lt_iff₀ hd']
    calc
      (n : ℚ) < 2 ^ ((n.log2 : Int) + 1) := hhigh n
      _ = 2 ^ ((n.log2 : Int) - d.log2 + 1) * 2 ^ (d.log2 : Int) := by
        rw [← zpow_add₀ (by norm_num)]
        congr 1
        ring
      _ ≤ 2 ^ ((n.log2 : Int) - d.log2 + 1) * d :=
        mul_le_mul_of_nonneg_left (hlow d hd) (by positivity)

theorem two_pow_le_scaled_iff (hd : d ≠ 0) :
    Nat.pow 2 53 ≤ (scaled n d e).1 / (scaled n d e).2 ↔ (2 : ℚ) ^ 53 * 2 ^ e ≤ n / d := by
  have hpos := pos_scaled (Nat.pos_of_ne_zero hd) n e
  have hpos' : (0 : ℚ) < (scaled n d e).2 := by exact_mod_cast hpos
  rw [← le_div_iff₀ (zpow_pos (by norm_num) e), ← scaled_div, le_div_iff₀ hpos',
    Nat.le_div_iff_mul_le hpos]
  exact_mod_cast Iff.rfl

theorem isScale_exponentFor (hn : n ≠ 0) (hd : d ≠ 0) : IsScale (n / d) (exponentFor n d) := by
  obtain ⟨hlow, hhigh⟩ := log2_bounds hn hd
  have htwo : (2 : ℚ) ≠ 0 := by norm_num
  have hone : (1 : ℚ) ≤ 2 := by norm_num
  simp only [exponentFor]
  generalize he : max leastExponent ((n.log2 : Int) - d.log2 - 53) = e
  have hleast : leastExponent ≤ e := he ▸ le_max_left _ _
  split
  · rename_i hfull
    rw [two_pow_le_scaled_iff hd] at hfull
    refine ⟨by omega, hhigh.trans_le ?_, .inr ?_⟩
    · rw [← zpow_natCast, ← zpow_add₀ htwo]
      exact zpow_le_zpow_right₀ hone (by push_cast; omega)
    · rw [zpow_add_one₀ htwo]
      linarith
  · rename_i hfull
    rw [two_pow_le_scaled_iff hd, not_le] at hfull
    refine ⟨hleast, hfull, ?_⟩
    by_cases hsmall : e = leastExponent
    · exact .inl hsmall
    · refine .inr (le_trans ?_ hlow.le)
      rw [← zpow_natCast, ← zpow_add₀ htwo]
      exact zpow_le_zpow_right₀ hone (by push_cast; omega)

/-! ### Doubles in normal form -/

/-- A finite double in normal form has an exponent in range, a mantissa of at most 53 bits,
and of no fewer unless the exponent is the least one. -/
def Proper : Double → Prop
  | nan => True
  | infinite _ => True
  | finite _ m e => leastExponent ≤ e ∧ e ≤ greatestExponent ∧ m < 2 ^ 53 ∧
      (e = leastExponent ∨ 2 ^ 52 ≤ m)

theorem proper_zero (negative : Bool) : (zero negative).Proper := by
  refine ⟨le_rfl, ?_, by decide, .inl rfl⟩
  simp [leastExponent, greatestExponent]

theorem proper_pack (he : leastExponent ≤ e) (hm : m ≤ 2 ^ 53)
    (hfull : e = leastExponent ∨ 2 ^ 52 ≤ m) : (pack negative m e).Proper := by
  simp only [pack]
  by_cases hcarry : m = Nat.pow 2 53
  · rw [if_pos hcarry]
    split
    · trivial
    · exact ⟨by omega, by omega, (by decide : 2 ^ 52 < 2 ^ 53), .inr le_rfl⟩
  · rw [if_neg hcarry]
    split
    · trivial
    · exact ⟨he, by omega, lt_of_le_of_ne hm hcarry, hfull⟩

/-- A rounded quotient is in normal form. -/
theorem proper_ofRatio (negative : Bool) (n : Nat) (hd : d ≠ 0) :
    (ofRatio negative n d).Proper := by
  unfold ofRatio
  split
  · exact proper_zero negative
  · rename_i hn
    have hscale := isScale_exponentFor hn hd
    dsimp only
    generalize exponentFor n d = e at hscale ⊢
    refine proper_pack hscale.least_le ?_ (hscale.le.imp_right fun hle => ?_)
    · -- Below the next power of two, rounding up at most reaches it.
      have hlt : ¬ Nat.pow 2 53 ≤ (scaled n d e).1 / (scaled n d e).2 := by
        rw [two_pow_le_scaled_iff hd, not_le]
        exact hscale.lt
      have hround := roundHalfEven_le (scaled n d e).1 (scaled n d e).2
      have hpow : Nat.pow 2 53 = 2 ^ 53 := rfl
      omega
    · refine le_trans ?_ (le_roundHalfEven _ _)
      have hpos := pos_scaled (Nat.pos_of_ne_zero hd) n e
      have hpos' : (0 : ℚ) < (scaled n d e).2 := by exact_mod_cast hpos
      rw [Nat.le_div_iff_mul_le hpos]
      rw [← le_div_iff₀ (zpow_pos (by norm_num) e), ← scaled_div, le_div_iff₀ hpos'] at hle
      exact_mod_cast hle

theorem proper_ofDecimal (negative : Bool) (digits : Nat) (e : Int) :
    (ofDecimal negative digits e).Proper := by
  unfold ofDecimal
  split_ifs
  · exact proper_zero negative
  · trivial
  · exact proper_zero negative
  · exact proper_ofRatio _ _ (Nat.pow_pos (by decide)).ne'
  · exact proper_ofRatio _ _ one_ne_zero

/-! ### Rounding intervals -/

/-- How far the interval of a double reaches below it, in units of its last bit. Below a
power of two the doubles lie twice as dense. -/
def reach (m : Nat) (e : Int) : ℚ := if m = 2 ^ 52 ∧ e ≠ leastExponent then 1 / 4 else 1 / 2

/-- The numbers that round to `m * 2 ^ e`. -/
structure RoundsTo (m : Nat) (e : Int) (x : ℚ) : Prop where
  low : (m - reach m e) * 2 ^ e ≤ x
  high : x ≤ (m + 1 / 2) * 2 ^ e
  inner : m % 2 = 0 ∨ (m - reach m e) * 2 ^ e < x ∧ x < (m + 1 / 2) * 2 ^ e

theorem reach_le (m : Nat) (e : Int) : reach m e ≤ 1 / 2 := by
  unfold reach
  split <;> norm_num

theorem reach_pos (m : Nat) (e : Int) : 0 < reach m e := by
  unfold reach
  split <;> norm_num

/-- The ends belong to the interval of an even mantissa and not to that of an odd one. -/
theorem roundsTo_iff :
    RoundsTo m e x ↔
      if m % 2 = 0 then (m - reach m e) * 2 ^ e ≤ x ∧ x ≤ (m + 1 / 2) * 2 ^ e
      else (m - reach m e) * 2 ^ e < x ∧ x < (m + 1 / 2) * 2 ^ e := by
  split
  · rename_i heven
    exact ⟨fun h => ⟨h.low, h.high⟩, fun h => ⟨h.1, h.2, .inl heven⟩⟩
  · rename_i hodd
    exact ⟨fun h => h.inner.resolve_left hodd, fun h => ⟨h.1.le, h.2.le, .inr h⟩⟩

theorem RoundsTo.pos (h : RoundsTo m e x) (hm : m ≠ 0) : 0 < x := by
  have hone : (1 : ℚ) ≤ m := by exact_mod_cast Nat.one_le_iff_ne_zero.mpr hm
  have hreach := reach_le m e
  exact lt_of_lt_of_le (mul_pos (by linarith) (zpow_pos (by norm_num) e)) h.low

/-- Only a power of two has numbers below it that are at another scale and round to it. -/
theorem RoundsTo.eq_two_pow_of_lt (h : RoundsTo m e x) (hm : 2 ^ 52 ≤ m)
    (hlt : x < 2 ^ 52 * 2 ^ e) : m = 2 ^ 52 := by
  have hpow : (0 : ℚ) < 2 ^ e := zpow_pos (by norm_num) e
  have hbelow : (m : ℚ) - reach m e < 2 ^ 52 := lt_of_mul_lt_mul_right (h.low.trans_lt hlt) hpow.le
  have hnext : (m : ℚ) < (2 ^ 52 + 1 : Nat) := by
    push_cast
    linarith [reach_le m e]
  have : m < 2 ^ 52 + 1 := by exact_mod_cast hnext
  omega

theorem pack_eq (hm : m < 2 ^ 53) (he : e ≤ greatestExponent) :
    pack negative m e = finite negative m e := by
  have hne : m ≠ Nat.pow 2 53 := hm.ne
  simp [pack, hne, not_lt.mpr he]

theorem pack_carry (he : e ≤ greatestExponent) :
    pack negative (2 ^ 53) (e - 1) = finite negative (2 ^ 52) e := by
  simp [pack, not_lt.mpr he]

/-- At its scale, a quotient is rounded to the mantissa. -/
theorem ofRatio_eq_pack (hn : n ≠ 0) (hd : d ≠ 0) (hscale : IsScale (n / d) e)
    (hlow : ((m : ℚ) - 1 / 2) * 2 ^ e ≤ n / d) (hhigh : (n / d : ℚ) ≤ (m + 1 / 2) * 2 ^ e)
    (hinner : m % 2 = 0 ∨ ((m : ℚ) - 1 / 2) * 2 ^ e < n / d ∧
      (n / d : ℚ) < (m + 1 / 2) * 2 ^ e) :
    ofRatio negative n d = pack negative m e := by
  have hpow : (0 : ℚ) < 2 ^ e := zpow_pos (by norm_num) e
  have hround : roundHalfEven (scaled n d e).1 (scaled n d e).2 = m := by
    refine roundHalfEven_eq (pos_scaled (Nat.pos_of_ne_zero hd) n e) ?_ ?_ ?_
    all_goals rw [scaled_div]
    · rwa [le_div_iff₀ hpow]
    · rwa [div_le_iff₀ hpow]
    · rwa [lt_div_iff₀ hpow, div_lt_iff₀ hpow]
  rw [ofRatio, if_neg hn, ← hscale.unique (isScale_exponentFor hn hd)]
  dsimp only
  rw [hround]

/-- What rounds to a double in normal form is rounded to it. -/
theorem ofRatio_eq (hd : d ≠ 0) (hm : m ≠ 0) (hproper : (finite negative m e).Proper)
    (h : RoundsTo m e (n / d)) : ofRatio negative n d = finite negative m e := by
  obtain ⟨hleast, hgreatest, hbits, hfull⟩ := hproper
  have hpow : (0 : ℚ) < 2 ^ e := zpow_pos (by norm_num) e
  have hn : n ≠ 0 := by
    rintro rfl
    simpa using h.pos hm
  by_cases hbelow : (n / d : ℚ) < 2 ^ 52 * 2 ^ e ∧ e ≠ leastExponent
  · -- Just below a power of two the scale is the one before, and rounding carries.
    obtain ⟨hlt, hne⟩ := hbelow
    obtain rfl : m = 2 ^ 52 := h.eq_two_pow_of_lt (hfull.resolve_left hne) hlt
    have hlow : ((2 : ℚ) ^ 52 - 1 / 4) * 2 ^ e ≤ n / d := by
      have hlow := h.low
      rw [reach, if_pos ⟨rfl, hne⟩] at hlow
      exact_mod_cast hlow
    have hstep : (2 : ℚ) ^ e = 2 * 2 ^ (e - 1) := by
      rw [zpow_sub_one₀ (by norm_num)]
      ring
    rw [hstep] at hlt hlow
    have hpow' : (0 : ℚ) < 2 ^ (e - 1) := zpow_pos (by norm_num) _
    have hscale : IsScale (n / d) (e - 1) := ⟨by omega, by linarith, .inr (by linarith)⟩
    rw [ofRatio_eq_pack (m := 2 ^ 53) hn hd hscale (by push_cast; linarith)
      (by push_cast; linarith) (.inl (by norm_num)), pack_carry hgreatest]
  · have hscale : IsScale (n / d) e := by
      refine ⟨hleast, h.high.trans_lt (mul_lt_mul_of_pos_right ?_ hpow), ?_⟩
      · have hbits' : (m : ℚ) + 1 ≤ 2 ^ 53 := by exact_mod_cast hbits
        linarith
      · by_contra hnot
        rw [not_or, not_le] at hnot
        exact hbelow ⟨hnot.2, hnot.1⟩
    have hreach : ((m : ℚ) - 1 / 2) * 2 ^ e ≤ (m - reach m e) * 2 ^ e :=
      mul_le_mul_of_nonneg_right (by linarith [reach_le m e]) hpow.le
    rw [ofRatio_eq_pack hn hd hscale (hreach.trans h.low) h.high
      (h.inner.imp_right fun hin => ⟨hreach.trans_lt hin.1, hin.2⟩), pack_eq hbits hgreatest]

/-! ### Decimals -/

theorem lt_pow_digitCount (n : Nat) : n < 10 ^ digitCount n :=
  (Nat.length_toDigits_le_iff (by decide) Nat.length_toDigits_pos).mp le_rfl

theorem pow_digitCount_le (hn : n ≠ 0) : 10 ^ (digitCount n - 1) ≤ n := by
  rcases Nat.eq_zero_or_pos (digitCount n - 1) with hone | hmore
  · rw [hone]
    exact Nat.one_le_iff_ne_zero.mpr hn
  · by_contra hlt
    have hshort := (Nat.length_toDigits_le_iff (by decide) hmore).mpr (not_le.mp hlt)
    rw [digitCount] at hshort hmore
    omega

/-- The number of digits tells the size of a decimal. -/
theorem decimal_bounds (hd : d ≠ 0) (p : Int) :
    (10 : ℚ) ^ ((digitCount d : Int) - 1 + p) ≤ d * 10 ^ p ∧
      (d : ℚ) * 10 ^ p < 10 ^ ((digitCount d : Int) + p) := by
  have hten : (10 : ℚ) ≠ 0 := by norm_num
  have hpow : (0 : ℚ) < 10 ^ p := zpow_pos (by norm_num) p
  have hcount : 0 < digitCount d := Nat.length_toDigits_pos
  constructor
  · rw [zpow_add₀ hten]
    refine mul_le_mul_of_nonneg_right ?_ hpow.le
    have hcast : ((digitCount d : Int) - 1) = ((digitCount d - 1 : Nat) : Int) := by omega
    rw [hcast, zpow_natCast]
    exact_mod_cast pow_digitCount_le hd
  · rw [zpow_add₀ hten, zpow_natCast]
    refine mul_lt_mul_of_pos_right ?_ hpow
    exact_mod_cast lt_pow_digitCount d

/-- A decimal that rounds to a double is not so large or small that it is not computed. -/
theorem RoundsTo.size (hd : d ≠ 0) (hm : m ≠ 0) (hproper : (finite negative m e).Proper)
    (h : RoundsTo m e (d * 10 ^ p)) :
    (digitCount d : Int) + p ≤ 400 ∧ -400 ≤ (digitCount d : Int) + p := by
  obtain ⟨hleast, hgreatest, hbits, -⟩ := hproper
  obtain ⟨hdown, hup⟩ := decimal_bounds hd p
  have hone : (1 : ℚ) ≤ m := by exact_mod_cast Nat.one_le_iff_ne_zero.mpr hm
  have hbits' : (m : ℚ) + 1 ≤ 2 ^ 53 := by exact_mod_cast hbits
  have hfar : (2 : ℚ) ^ (1075 : Int) < 10 ^ (400 : Int) := by
    have hnat : 2 ^ 1075 < 10 ^ 400 := by decide +kernel
    exact_mod_cast hnat
  constructor
  · have hlt : (10 : ℚ) ^ ((digitCount d : Int) - 1 + p) < 10 ^ (400 : Int) := by
      calc
        (10 : ℚ) ^ ((digitCount d : Int) - 1 + p) ≤ (m + 1 / 2) * 2 ^ e := hdown.trans h.high
        _ ≤ 2 ^ 53 * 2 ^ greatestExponent := by
          refine mul_le_mul (by linarith) (zpow_le_zpow_right₀ (by norm_num) hgreatest)
            (by positivity) (by positivity)
        _ = 2 ^ (1024 : Int) := by
          rw [← zpow_natCast, ← zpow_add₀ (by norm_num)]
          rfl
        _ ≤ 2 ^ (1075 : Int) := zpow_le_zpow_right₀ (by norm_num) (by norm_num)
        _ < 10 ^ (400 : Int) := hfar
    have := (zpow_lt_zpow_iff_right₀ (by norm_num)).mp hlt
    omega
  · have hlt : (10 : ℚ) ^ (-400 : Int) < 10 ^ ((digitCount d : Int) + p) := by
      calc
        (10 : ℚ) ^ (-400 : Int) < 2 ^ (-1075 : Int) := by
          rw [zpow_neg, zpow_neg]
          exact inv_strictAnti₀ (by positivity) hfar
        _ = 1 / 2 * 2 ^ leastExponent := by
          have hexp : (-1075 : Int) = leastExponent - 1 := rfl
          rw [hexp, zpow_sub_one₀ (by norm_num)]
          ring
        _ ≤ (m - reach m e) * 2 ^ e := by
          refine mul_le_mul (by linarith [reach_le m e])
            (zpow_le_zpow_right₀ (by norm_num) hleast) (by positivity)
            (by linarith [reach_le m e])
        _ < 10 ^ ((digitCount d : Int) + p) := h.low.trans_lt hup
    have := (zpow_lt_zpow_iff_right₀ (by norm_num)).mp hlt
    omega

/-- A decimal that rounds to a double in normal form is read as it. -/
theorem ofDecimal_eq (hm : m ≠ 0) (hproper : (finite negative m e).Proper)
    (h : RoundsTo m e (d * 10 ^ p)) : ofDecimal negative d p = finite negative m e := by
  have hd : d ≠ 0 := by
    rintro rfl
    simpa using h.pos hm
  obtain ⟨hlarge, hsmall⟩ := h.size hd hm hproper
  rw [ofDecimal, if_neg hd, if_neg (not_lt.mpr hlarge), if_neg (not_lt.mpr hsmall)]
  split
  · rename_i hp
    obtain ⟨k, rfl⟩ : ∃ k : Nat, p = -k := ⟨(-p).toNat, by omega⟩
    refine ofRatio_eq (Nat.pow_pos (by decide)).ne' hm hproper ?_
    simpa [zpow_neg, div_eq_mul_inv] using h
  · rename_i hp
    obtain ⟨k, rfl⟩ : ∃ k : Nat, p = k := ⟨p.toNat, by omega⟩
    refine ofRatio_eq one_ne_zero hm hproper ?_
    simpa using h

end Double

end Delimited
