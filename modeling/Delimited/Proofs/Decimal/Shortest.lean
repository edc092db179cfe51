import Delimited.Decimal.Shortest
import Delimited.Proofs.Decimal.Rounding
import Mathlib.Tactic.LinearCombination

/-!
# Decimals that read back

The search for the shortest decimal of a double tries longer and longer decimals until
one lies in the rounding interval of the double. With seventeen digits the decimals lie
closer together than the interval is wide, so the search ends with a hit, and the decimal
it ends with is read as the double again.

## Main results

* `Shortest.Interval.has_inUnits_ofDouble_iff`: the interval is the one of rounding.
* `Shortest.has_search`: the search ends with a hit.
* `Double.roundsTo_shortest`: the shortest decimal rounds to the double.
-/

namespace Delimited

namespace Shortest

open Double

variable {i : Interval} {d m : Nat} {e k p : Int}

/-! ### Intervals -/

namespace Interval

theorem has_of_nearest? (h : i.nearest? = some d) : i.has d = true := by
  unfold nearest? at h
  dsimp only at h
  split at h
  · rename_i hfirst hsecond
    cases h
    have hle := le_roundHalfEven i.value i.unit
    have hge := roundHalfEven_le i.value i.unit
    obtain heq | heq : roundHalfEven i.value i.unit = i.value / i.unit ∨
        roundHalfEven i.value i.unit = i.value / i.unit + 1 := by omega
    · rwa [heq]
    · rwa [heq]
  · rename_i hfirst _
    cases h
    exact hfirst
  · rename_i _ hsecond
    cases h
    exact hsecond
  · cases h

/-- An interval that is wider than a unit holds one of the integers around its value. -/
theorem exists_nearest?_eq_some (hunit : 0 < i.unit) (hlow : i.low ≤ i.value)
    (hhigh : i.value < i.high) (hwide : i.low + i.unit < i.high) : ∃ d, i.nearest? = some d := by
  have hdown : i.value / i.unit * i.unit ≤ i.value := Nat.div_mul_le_self _ _
  have hup : i.value < (i.value / i.unit + 1) * i.unit := by
    rw [Nat.mul_comm]
    exact Nat.lt_mul_div_succ _ hunit
  have hnear : i.has (i.value / i.unit) = true ∨ i.has (i.value / i.unit + 1) = true := by
    rw [Nat.add_mul, Nat.one_mul] at hup
    unfold has
    rw [Nat.add_mul, Nat.one_mul]
    split
    · simp only [decide_eq_true_eq]
      omega
    · simp only [decide_eq_true_eq]
      omega
  unfold nearest?
  dsimp only
  split <;> simp_all

/-- A change of units is a factor for the numbers of an interval and one for its unit. -/
theorem exists_inUnits_eq (i : Interval) (p : Int) :
    ∃ f g : Nat, 0 < f ∧ (g : ℚ) = f * 10 ^ p ∧
      i.inUnits p = ⟨i.low * f, i.value * f, i.high * f, i.unit * g, i.closed⟩ := by
  unfold inUnits
  split
  · rename_i hp
    obtain ⟨n, rfl⟩ : ∃ n : Nat, p = -n := ⟨(-p).toNat, by omega⟩
    refine ⟨10 ^ n, 1, Nat.pow_pos (by decide), ?_, by simp⟩
    simp [zpow_neg]
  · rename_i hp
    obtain ⟨n, rfl⟩ : ∃ n : Nat, p = n := ⟨p.toNat, by omega⟩
    exact ⟨1, 10 ^ n, Nat.one_pos, by simp, by simp⟩

/-- The numbers that a double is given by, over a unit that is four times finer than its
last bit. -/
theorem exists_ofDouble_eq (hm : m ≠ 0) (e : Int) :
    ∃ b f u : Nat, 0 < u ∧ b < 4 * m ∧ (b : ℚ) = 4 * reach m e ∧ (4 * f : ℚ) = u * 2 ^ e ∧
      ofDouble m e =
        ⟨(4 * m - b) * f, 4 * m * f, (4 * m + 2) * f, u, m % 2 == 0⟩ := by
  refine ⟨if m = Nat.pow 2 52 ∧ e ≠ leastExponent then 1 else 2, (scaled 1 1 (2 - e)).1,
    (scaled 1 1 (2 - e)).2, pos_scaled Nat.one_pos 1 _, ?_, ?_, ?_, rfl⟩
  · split <;> omega
  · have hpow : Nat.pow 2 52 = 2 ^ 52 := rfl
    rw [reach, hpow]
    split <;> norm_num
  · have hunit : (0 : ℚ) < (scaled 1 1 (2 - e)).2 := by
      exact_mod_cast pos_scaled Nat.one_pos 1 (2 - e)
    have hdiv := scaled_div 1 1 (2 - e)
    rw [div_eq_iff hunit.ne'] at hdiv
    rw [hdiv, zpow_sub₀ (by norm_num)]
    field_simp
    norm_num

/-- The ends of the interval of a double and a decimal, in common units. -/
theorem exists_common_unit (hm : m ≠ 0) (e p : Int) :
    ∃ c : ℚ, 0 < c ∧ 0 < ((ofDouble m e).inUnits p).unit ∧
      (((ofDouble m e).inUnits p).low : ℚ) = (m - reach m e) * 2 ^ e * c ∧
      (((ofDouble m e).inUnits p).value : ℚ) = m * 2 ^ e * c ∧
      (((ofDouble m e).inUnits p).high : ℚ) = (m + 1 / 2) * 2 ^ e * c ∧
      (((ofDouble m e).inUnits p).unit : ℚ) = 10 ^ p * c ∧
      ((ofDouble m e).inUnits p).closed = (m % 2 == 0) := by
  obtain ⟨b, f, u, hu, hb, hreach, hscale, hdouble⟩ := exists_ofDouble_eq hm e
  obtain ⟨f', g, hf', hg, hunits⟩ := (ofDouble m e).exists_inUnits_eq p
  rw [hunits, hdouble]
  have hg' : 0 < g := by
    have hpos : (0 : ℚ) < g := hg ▸ by positivity
    exact_mod_cast hpos
  -- Over the unit a double is `4 * f` times its mantissa, which is what `2 ^ e` comes to.
  refine ⟨u * f', by positivity, Nat.mul_pos hu hg', ?_, ?_, ?_, ?_, rfl⟩
  · push_cast [Nat.cast_sub hb.le]
    linear_combination (m - reach m e) * f' * hscale - f * f' * hreach
  · push_cast
    linear_combination m * f' * hscale
  · push_cast
    linear_combination (m + 1 / 2) * f' * hscale
  · push_cast
    linear_combination u * hg

/-- The integers in the interval of a double are the decimals that round to it. -/
theorem has_inUnits_ofDouble_iff (hm : m ≠ 0) :
    ((ofDouble m e).inUnits p).has d = true ↔ RoundsTo m e (d * 10 ^ p) := by
  obtain ⟨c, hc, -, hlow, -, hhigh, hunit, hclosed⟩ := exists_common_unit hm e p
  have hvalue : ((d * ((ofDouble m e).inUnits p).unit : Nat) : ℚ) = d * 10 ^ p * c := by
    rw [Nat.cast_mul, hunit, mul_assoc]
  rw [has, hclosed, roundsTo_iff]
  by_cases heven : m % 2 = 0
  · rw [if_pos (beq_iff_eq.mpr heven), if_pos heven, decide_eq_true_eq, ← Nat.cast_le (α := ℚ),
      ← Nat.cast_le (α := ℚ), hlow, hhigh, hvalue, mul_le_mul_iff_left₀ hc,
      mul_le_mul_iff_left₀ hc]
  · rw [if_neg (by simpa using heven), if_neg heven, decide_eq_true_eq, ← Nat.cast_lt (α := ℚ),
      ← Nat.cast_lt (α := ℚ), hlow, hhigh, hvalue, mul_lt_mul_iff_left₀ hc,
      mul_lt_mul_iff_left₀ hc]

/-- Decimals that lie closer together than the interval of a double is wide hit it. -/
theorem exists_nearest?_ofDouble (hm : m ≠ 0) (hp : (10 : ℚ) ^ p < (reach m e + 1 / 2) * 2 ^ e) :
    ∃ d, ((ofDouble m e).inUnits p).nearest? = some d := by
  obtain ⟨c, hc, hpos, hlow, hvalue, hhigh, hunit, -⟩ := exists_common_unit hm e p
  have hpow : (0 : ℚ) < 2 ^ e := zpow_pos (by norm_num) e
  have hscale : (0 : ℚ) < 2 ^ e * c := mul_pos hpow hc
  refine exists_nearest?_eq_some hpos ?_ ?_ ?_
  · rw [← Nat.cast_le (α := ℚ), hlow, hvalue]
    have hreach := mul_pos (reach_pos m e) hscale
    linarith
  · rw [← Nat.cast_lt (α := ℚ), hvalue, hhigh]
    linarith
  · rw [← Nat.cast_lt (α := ℚ), Nat.cast_add, hlow, hunit, hhigh]
    have hclose := mul_lt_mul_of_pos_right hp hc
    linarith

end Interval

/-! ### The search -/

theorem pow_magnitude_le (hvalue : i.value ≠ 0) (hunit : 0 < i.unit) :
    (10 : ℚ) ^ (magnitude i - 1) ≤ i.value / i.unit := by
  have hten : (10 : ℚ) ≠ 0 := by norm_num
  have hunit' : (0 : ℚ) < i.unit := by exact_mod_cast hunit
  obtain ⟨f, g, hf, hg, hunits⟩ := i.exists_inUnits_eq
    ((digitCount i.value : Int) - digitCount i.unit)
  rw [le_div_iff₀ hunit']
  simp only [magnitude, hunits]
  split
  · rename_i hle
    rw [add_sub_cancel_right]
    have hcast : (i.unit * g : ℚ) ≤ i.value * f := by exact_mod_cast hle
    rw [hg] at hcast
    refine le_of_mul_le_mul_right ?_ (by exact_mod_cast hf : (0 : ℚ) < f)
    linarith
  · have hbelow := (decimal_bounds hvalue 0).1
    have habove := (decimal_bounds hunit.ne' 0).2
    rw [zpow_zero, mul_one, add_zero] at hbelow habove
    calc
      (10 : ℚ) ^ ((digitCount i.value : Int) - digitCount i.unit - 1) * i.unit
          ≤ 10 ^ ((digitCount i.value : Int) - digitCount i.unit - 1) *
              10 ^ (digitCount i.unit : Int) :=
            mul_le_mul_of_nonneg_left habove.le (by positivity)
      _ = 10 ^ ((digitCount i.value : Int) - 1) := by
        rw [← zpow_add₀ hten]
        congr 1
        ring
      _ ≤ i.value := hbelow

/-- The search ends with a hit if there is one among the decimals that it tries. -/
theorem has_search (tries : Nat) {digits : Nat}
    (h : ∃ d, (i.inUnits (k - (digits + tries : Nat))).nearest? = some d) :
    (i.inUnits (search i k (tries + 1) digits).2).has (search i k (tries + 1) digits).1 =
      true := by
  -- The induction is on the tries that are left. The hit is one that the last of them finds.
  induction tries generalizing digits with
  | zero =>
    obtain ⟨d, hd⟩ := h
    rw [Nat.add_zero] at hd
    rw [search, hd]
    exact Interval.has_of_nearest? hd
  | succ tries ih =>
    rw [search]
    cases hd : (i.inUnits (k - digits)).nearest? with
    | some d => exact Interval.has_of_nearest? hd
    | none =>
      have hmore : digits + (tries + 1) = digits + 1 + tries := by omega
      exact ih (hmore ▸ h)

theorem dropZeros_eq (d : Nat) (p : Int) :
    ((dropZeros d p).1 : ℚ) * 10 ^ (dropZeros d p).2 = d * 10 ^ p := by
  fun_induction dropZeros d p with
  | case1 d p hmore ih =>
    have hten : 10 * (d / 10) = d := Nat.mul_div_cancel' (Nat.dvd_of_mod_eq_zero hmore.2)
    have hcast : (10 * (d / 10 : Nat) : ℚ) = d := by exact_mod_cast hten
    rw [ih, zpow_add_one₀ (by norm_num)]
    linear_combination 10 ^ p * hcast
  | case2 d p _ => rfl

end Shortest

namespace Double

open Shortest

variable {m : Nat} {e : Int}

/-- Decimals of seventeen digits lie closer together than the doubles of their size. -/
theorem pow_seventeen_lt (hm : m ≠ 0) (hbits : m < 2 ^ 53) :
    (10 : ℚ) ^ (magnitude (.ofDouble m e) - 17) < (reach m e + 1 / 2) * 2 ^ e := by
  have hpow : (0 : ℚ) < 2 ^ e := zpow_pos (by norm_num) e
  have hsize : (10 : ℚ) ^ (magnitude (.ofDouble m e) - 1) ≤ m * 2 ^ e := by
    obtain ⟨b, f, u, hu, -, -, hscale, hdouble⟩ := Interval.exists_ofDouble_eq hm e
    have hu' : (0 : ℚ) < u := by exact_mod_cast hu
    have hf : f ≠ 0 := by
      rintro rfl
      have hzero : (0 : ℚ) < u * 2 ^ e := mul_pos hu' hpow
      rw [← hscale] at hzero
      simp at hzero
    have hle := pow_magnitude_le (i := .ofDouble m e) (by simp [hdouble, hm, hf])
      (by simp [hdouble, hu])
    refine hle.trans (le_of_eq ?_)
    rw [hdouble, div_eq_iff hu'.ne']
    push_cast
    linear_combination m * hscale
  have hstep : (10 : ℚ) ^ (magnitude (.ofDouble m e) - 1) =
      10 ^ 16 * 10 ^ (magnitude (.ofDouble m e) - 17) := by
    rw [← zpow_natCast, ← zpow_add₀ (by norm_num)]
    congr 1
    push_cast
    ring
  -- At a power of two the interval is narrower, but there the mantissa is the least one.
  have hfew : (m : ℚ) < 10 ^ 16 * (reach m e + 1 / 2) := by
    unfold reach
    split
    · rename_i h
      rw [h.1]
      norm_num
    · have hcast : (m : ℚ) < 2 ^ 53 := by exact_mod_cast hbits
      norm_num at hcast ⊢
      linarith
  have hlt := mul_lt_mul_of_pos_right hfew hpow
  linarith

/-- The shortest decimal of a double rounds to the double. -/
theorem roundsTo_shortest (hm : m ≠ 0) (hbits : m < 2 ^ 53) :
    RoundsTo m e ((shortest m e).1 * 10 ^ (shortest m e).2) := by
  rw [shortest, if_neg hm]
  dsimp only
  rw [dropZeros_eq, ← Interval.has_inUnits_ofDouble_iff hm]
  exact has_search 16
    (Interval.exists_nearest?_ofDouble hm (pow_seventeen_lt hm hbits))

end Double

end Delimited
