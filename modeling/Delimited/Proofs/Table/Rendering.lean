import Delimited.Proofs.Decimal.Shortest
import Delimited.Proofs.Table.Numeral

/-!
# Doubles as cells

A double is written as its shortest decimal, with a point or an exponent, and this text is
a numeral of the same value. So it never stands for an integer, and if it is rounded
correctly, it is read as the same double.

## Main definitions

* `ReadsAs`: characters that are read as a number of a given value.

## Main results

* `ofChars?_point`, `ofChars?_exponent`: decimals with a point, and those without.
* `readsAs_decimal`: the text of a decimal is read as a decimal of the same value.
* `Double.exists_ofChars?_render`: the text of a double is a numeral for the double.
* `Double.not_denotes_render`: the text of a double does not stand for an integer.
* `Numeral.readsBack_read`: what is read as numerals is read back.
-/

namespace Delimited

variable {negative : Bool} {whole fraction rest cs : List Char} {d : Nat} {e p : Int}

/-! ### Digits -/

theorem digitsValue_append (cs ds : List Char) :
    digitsValue (cs ++ ds) = 10 ^ ds.length * digitsValue cs + digitsValue ds := by
  simp only [digitsValue_eq]
  rw [Nat.ofDigitChars_append, Nat.ofDigitChars_eq_ofDigitChars_zero]

@[simp] theorem digitsValue_replicate_zero (n : Nat) :
    digitsValue (List.replicate n '0') = 0 := by
  rw [digitsValue_eq, Nat.ofDigitChars_replicate_zero, Nat.mul_zero]

theorem isDigit_of_mem_replicate_zero {c : Char} {n : Nat} (h : c ∈ List.replicate n '0') :
    c.isDigit = true := by
  rw [List.eq_of_mem_replicate h]
  rfl

/-! ### Reading decimals -/

/-- The sign in front of a number. -/
def signChars (negative : Bool) : List Char := if negative then ['-'] else []

/-- Characters that start with a digit have no other sign than the one in front. -/
theorem ofChars?_signed (hne : whole ≠ []) (hwhole : ∀ c ∈ whole, c.isDigit = true) :
    Numeral.ofChars? (signChars negative ++ (whole ++ rest)) =
      Numeral.unsigned? negative (whole ++ rest) := by
  obtain ⟨c, cs, rfl⟩ := List.exists_cons_of_ne_nil hne
  have hc : c.isDigit = true := hwhole c (by simp)
  have hsign : splitSign (signChars negative ++ (c :: cs ++ rest)) =
      (negative, c :: cs ++ rest) := by
    cases negative with
    | true => rfl
    | false =>
      change splitSign (c :: (cs ++ rest)) = _
      unfold splitSign
      split
      · exact absurd hc (by simp_all)
      · exact absurd hc (by simp_all)
      · rfl
  -- Neither of the names of infinity starts with a digit.
  have hword : ∀ word ∈ ["inf".toList, "infinity".toList],
      (c :: cs ++ rest).map Char.toLower ≠ word := by
    have hhead : ∀ word ∈ ["inf".toList, "infinity".toList], word.head? = some 'i' := by decide
    intro word hmem heq
    have hfirst := hhead word hmem
    rw [← heq, List.cons_append, List.map_cons, List.head?_cons, toLower_of_isDigit hc,
      Option.some.injEq] at hfirst
    rw [hfirst] at hc
    exact absurd hc (by decide)
  rw [Numeral.ofChars?, hsign]
  dsimp only
  rw [if_neg (not_or.mpr ⟨hword _ (by simp), hword _ (by simp)⟩)]

theorem takeWhile_isDigit_append (hwhole : ∀ c ∈ whole, c.isDigit = true)
    (hrest : ∀ c ∈ rest.head?, c.isDigit = false) :
    (whole ++ rest).takeWhile Char.isDigit = whole ∧
      (whole ++ rest).dropWhile Char.isDigit = rest := by
  have htake : rest.takeWhile Char.isDigit = [] := by
    cases rest with
    | nil => rfl
    | cons c cs => simp [hrest c rfl]
  have hdrop : rest.dropWhile Char.isDigit = rest := by
    cases rest with
    | nil => rfl
    | cons c cs => simp [hrest c rfl]
  rw [List.takeWhile_append_of_pos hwhole, List.dropWhile_append_of_pos hwhole, htake, hdrop,
    List.append_nil]
  exact ⟨rfl, rfl⟩

/-- A decimal with a point. -/
theorem ofChars?_point (hne : whole ≠ []) (hwhole : ∀ c ∈ whole, c.isDigit = true)
    (hfraction : ∀ c ∈ fraction, c.isDigit = true)
    (hrest : ∀ c ∈ rest.head?, c.isDigit = false) (he : Numeral.exponent? rest = some e) :
    Numeral.ofChars? (signChars negative ++ (whole ++ '.' :: (fraction ++ rest))) =
      some (.decimal negative false (digitsValue (whole ++ fraction)) (e - fraction.length)) := by
  have hpoint : ∀ c ∈ ('.' :: (fraction ++ rest)).head?, c.isDigit = false := by simp
  obtain ⟨htake, hdrop⟩ := takeWhile_isDigit_append hwhole hpoint
  obtain ⟨htake', hdrop'⟩ := takeWhile_isDigit_append hfraction hrest
  rw [ofChars?_signed hne hwhole, Numeral.unsigned?, htake, hdrop]
  simp [htake', hdrop', he, hne]

/-- A decimal without a point is not an integer if it has an exponent. -/
theorem ofChars?_exponent (hne : whole ≠ []) (hwhole : ∀ c ∈ whole, c.isDigit = true)
    (he : Numeral.exponent? ('e' :: rest) = some e) :
    Numeral.ofChars? (signChars negative ++ (whole ++ 'e' :: rest)) =
      some (.decimal negative false (digitsValue whole) e) := by
  have hmark : ∀ c ∈ ('e' :: rest).head?, c.isDigit = false := by simp
  obtain ⟨htake, hdrop⟩ := takeWhile_isDigit_append hwhole hmark
  rw [ofChars?_signed hne hwhole, Numeral.unsigned?, htake, hdrop]
  simp [he, hne]

/-! ### The texts of decimals -/

/-- The text of an exponent is a mark, a sign and digits, which are read as the exponent. -/
theorem exists_exponentText_eq (format : NumberFormat) (e : Int) :
    ∃ sign digits, (format.exponentText e).toList = 'e' :: sign :: digits ∧
      (sign = '+' ∨ sign = '-') ∧ (∀ c ∈ digits, c.isDigit = true) ∧
      Numeral.exponent? ('e' :: sign :: digits) = some e := by
  have htext : (toString e.natAbs).toList = Nat.toDigits 10 e.natAbs := by
    rw [Nat.toString_eq_ofList_toDigits, String.toList_ofList]
  generalize hzeros : format.exponentWidth - (toString e.natAbs).length = zeros
  let digits := List.replicate zeros '0' ++ Nat.toDigits 10 e.natAbs
  have hdigits : ∀ c ∈ digits, c.isDigit = true := by
    rw [List.forall_mem_append]
    exact ⟨fun c => isDigit_of_mem_replicate_zero, fun c => isDigit_of_mem_toDigits⟩
  have hne : digits ≠ [] := by simp [digits, Nat.toDigits_ne_nil]
  have hvalue : digitsValue digits = e.natAbs := by simp [digits, digitsValue_append]
  have hall : digits ≠ [] ∧ digits.all Char.isDigit = true := ⟨hne, List.all_eq_true.mpr hdigits⟩
  refine ⟨if e < 0 then '-' else '+', digits, ?_, ?_, hdigits, ?_⟩
  · rw [NumberFormat.exponentText, hzeros, String.toList_append, String.toList_append, htext,
      String.toList_ofList]
    split <;> rfl
  · split <;> simp
  · by_cases hsign : e < 0
    · rw [if_pos hsign, Numeral.exponent?, if_pos (.inl rfl)]
      simp only [splitSign, if_pos hall, hvalue, if_true]
      congr 1
      omega
    · rw [if_neg hsign, Numeral.exponent?, if_pos (.inl rfl)]
      simp only [splitSign, if_pos hall, hvalue, Bool.false_eq_true, if_false]
      congr 1
      omega

/-- Digits with a point are digits on both sides of it, and keep their value. -/
theorem exists_positional_eq {digits : List Char} (hdigits : ∀ c ∈ digits, c.isDigit = true)
    (hne : digits ≠ []) (n : Int) :
    ∃ whole fraction, (NumberFormat.positional digits n).toList = whole ++ '.' :: fraction ∧
      whole ≠ [] ∧ (∀ c ∈ whole, c.isDigit = true) ∧ (∀ c ∈ fraction, c.isDigit = true) ∧
      (digitsValue (whole ++ fraction) * 10 ^ (-fraction.length : Int) : ℚ) =
        digitsValue digits * 10 ^ (n - digits.length) := by
  have hzero (k : Nat) : ∀ c ∈ List.replicate k '0', c.isDigit = true :=
    fun c => isDigit_of_mem_replicate_zero
  unfold NumberFormat.positional
  by_cases hn : n ≤ 0
  · -- Zeros stand on both sides of the point.
    rw [if_pos hn]
    refine ⟨['0'], List.replicate (-n).toNat '0' ++ digits, ?_, by simp, by simp,
      List.forall_mem_append.mpr ⟨hzero _, hdigits⟩, ?_⟩
    · simp
    · have hlength : (-(List.replicate (-n).toNat '0' ++ digits).length : Int) =
          n - digits.length := by
        rw [List.length_append, List.length_replicate]
        omega
      have hfirst : digitsValue ['0'] = 0 := rfl
      rw [hlength, digitsValue_append, digitsValue_append, hfirst, digitsValue_replicate_zero]
      simp
  · rw [if_neg hn]
    by_cases hlong : digits.length ≤ n.toNat
    · -- Zeros fill the digits up to the point, and one stands after it.
      refine ⟨digits ++ List.replicate (n.toNat - digits.length) '0', ['0'], ?_, by simp [hne],
        List.forall_mem_append.mpr ⟨hdigits, hzero _⟩, by simp, ?_⟩
      · simp [List.take_of_length_le hlong, List.drop_of_length_le hlong]
      · have hexp : n - digits.length = (n.toNat - digits.length : Nat) := by omega
        have hlast : digitsValue ['0'] = 0 := rfl
        rw [hexp, digitsValue_append, digitsValue_append, hlast, digitsValue_replicate_zero]
        simp
        ring
    · -- The point stands among the digits.
      refine ⟨digits.take n.toNat, digits.drop n.toNat, ?_, ?_,
        fun c hc => hdigits c (List.mem_of_mem_take hc),
        fun c hc => hdigits c (List.mem_of_mem_drop hc), ?_⟩
      · have hlength : (digits.take n.toNat).length = n.toNat :=
          List.length_take_of_le (by omega)
        have hdrop : (digits.drop n.toNat).isEmpty = false := by
          rw [List.isEmpty_eq_false_iff, ne_eq, List.drop_eq_nil_iff]
          exact hlong
        simp [hlength, hdrop]
      · rw [ne_eq, List.take_eq_nil_iff]
        exact not_or.mpr ⟨by omega, hne⟩
      · rw [List.take_append_drop, List.length_drop]
        congr 2
        omega

/-- Characters without blanks that are read, after a sign, as a number of the value `x` that
is not an integer. -/
structure ReadsAs (negative : Bool) (cs : List Char) (x : ℚ) : Prop where
  plain : ∀ c ∈ cs, Text.isBlank c = false
  value : ∃ digits e, Numeral.ofChars? (signChars negative ++ cs) =
    some (.decimal negative false digits e) ∧ (digits * 10 ^ e : ℚ) = x

theorem isBlank_of_digits (h : ∀ c ∈ cs, c.isDigit = true) : ∀ c ∈ cs, Text.isBlank c = false :=
  fun c hc => isBlank_eq_false_of_isDigit (h c hc)

theorem readsAs_positional {digits : List Char} (hdigits : ∀ c ∈ digits, c.isDigit = true)
    (hne : digits ≠ []) (n : Int) :
    ReadsAs negative (NumberFormat.positional digits n).toList
      (digitsValue digits * 10 ^ (n - digits.length)) := by
  obtain ⟨whole, fraction, htext, hwhole, hw, hf, heq⟩ := exists_positional_eq hdigits hne n
  have hread : Numeral.ofChars? (signChars negative ++ (whole ++ '.' :: (fraction ++ []))) =
      some (.decimal negative false (digitsValue (whole ++ fraction)) (0 - fraction.length)) :=
    ofChars?_point hwhole hw hf (by simp) rfl
  rw [List.append_nil] at hread
  rw [htext]
  refine ⟨?_, _, _, hread, ?_⟩
  · exact List.forall_mem_append.mpr ⟨isBlank_of_digits hw,
      List.forall_mem_cons.mpr ⟨by decide, isBlank_of_digits hf⟩⟩
  · rw [zero_sub, heq]

/-- Digits with an exponent are the first one, a point and the others, if there are any. -/
theorem readsAs_scientific (format : NumberFormat) {digits : List Char}
    (hdigits : ∀ c ∈ digits, c.isDigit = true) (hne : digits ≠ []) (e : Int) :
    ReadsAs negative (String.ofList (digits.take 1) ++
        (if digits.length = 1 then "" else "." ++ String.ofList (digits.drop 1)) ++
        format.exponentText e).toList
      (digitsValue digits * 10 ^ (e - (digits.length - 1 : Nat))) := by
  obtain ⟨sign, exponent, htext, hsign, hdigit, hexponent⟩ := exists_exponentText_eq format e
  have hblank : ∀ c ∈ 'e' :: sign :: exponent, Text.isBlank c = false := by
    refine List.forall_mem_cons.mpr ⟨by decide, List.forall_mem_cons.mpr ⟨?_,
      isBlank_of_digits hdigit⟩⟩
    rcases hsign with rfl | rfl <;> decide
  obtain ⟨c, cs, rfl⟩ := List.exists_cons_of_ne_nil hne
  rw [String.toList_append, String.toList_append, htext]
  -- No point stands after a single digit.
  cases cs with
  | nil =>
    have hfirst : (String.ofList ([c].take 1)).toList ++ (if [c].length = 1 then "" else
        "." ++ String.ofList ([c].drop 1)).toList = [c] := by simp
    rw [hfirst]
    refine ⟨?_, _, _, ofChars?_exponent hne hdigits hexponent, by simp⟩
    exact List.forall_mem_append.mpr ⟨isBlank_of_digits hdigits, hblank⟩
  | cons c' cs =>
    obtain ⟨hc, hcs⟩ := List.forall_mem_cons.mp hdigits
    have hfirst : (String.ofList ((c :: c' :: cs).take 1)).toList ++
        (if (c :: c' :: cs).length = 1 then "" else
          "." ++ String.ofList ((c :: c' :: cs).drop 1)).toList ++ 'e' :: sign :: exponent =
        [c] ++ '.' :: (c' :: cs ++ 'e' :: sign :: exponent) := by simp
    rw [hfirst]
    refine ⟨?_, _, _, ofChars?_point (by simp) (by simpa using hc) hcs (by simp) hexponent, ?_⟩
    · exact List.forall_mem_append.mpr ⟨isBlank_of_digits (by simpa using hc),
        List.forall_mem_cons.mpr ⟨by decide,
          List.forall_mem_append.mpr ⟨isBlank_of_digits hcs, hblank⟩⟩⟩
    · simp

/-- The text of a decimal is read as a decimal of the same value. -/
theorem readsAs_decimal (format : NumberFormat) (negative : Bool) (d : Nat) (p : Int) :
    ReadsAs negative (format.decimal d p).toList (d * 10 ^ p) := by
  have hdigits : ∀ c ∈ Nat.toDigits 10 d, c.isDigit = true := fun c => isDigit_of_mem_toDigits
  have hvalue := digitsValue_toDigits d
  have hne : Nat.toDigits 10 d ≠ [] := Nat.toDigits_ne_nil
  rw [NumberFormat.decimal]
  generalize Nat.toDigits 10 d = digits at hdigits hvalue hne ⊢
  have hlength := List.length_pos_iff.mpr hne
  split
  · convert readsAs_positional hdigits hne _ using 3
    · exact hvalue.symm
    · omega
  · convert readsAs_scientific format hdigits hne _ using 3
    · exact hvalue.symm
    · omega

/-! ### Doubles as cells -/

namespace Double

theorem toList_render_finite (negative : Bool) (m : Nat) (e : Int) :
    (render .cells (finite negative m e)).toList = signChars negative ++
      (NumberFormat.cells.decimal (shortest m e).1 (shortest m e).2).toList := by
  cases negative <;> simp [render, signChars]

/-- Nothing stands around the text of a double. -/
theorem stripChars_render (x : Double) :
    Text.stripChars (x.render .cells).toList = (x.render .cells).toList := by
  cases x with
  | nan => decide
  | infinite negative => cases negative <;> decide
  | finite negative m e =>
    refine stripChars_eq_self ?_
    rw [toList_render_finite]
    refine List.forall_mem_append.mpr ⟨fun c hc => ?_, (readsAs_decimal .cells negative _ _).plain⟩
    cases negative with
    | true =>
      rw [List.mem_singleton.mp hc]
      decide
    | false => cases hc

/-- The text of a double is a numeral for the double that is not written as an integer. -/
theorem exists_ofChars?_render {x : Double} (hnan : x ≠ .nan) :
    ∃ y, Numeral.ofChars? (x.render .cells).toList = some y ∧ y.toInt? = none ∧
      (x.Proper → y.toDouble = x) := by
  cases x with
  | nan => exact absurd rfl hnan
  | infinite negative =>
    cases negative <;> exact ⟨.infinite _, by decide +kernel, rfl, fun _ => rfl⟩
  | finite negative m e =>
    obtain ⟨-, digits, p, hread, hvalue⟩ :=
      readsAs_decimal .cells negative (shortest m e).1 (shortest m e).2
    rw [toList_render_finite, hread]
    refine ⟨_, rfl, rfl, fun hproper => ?_⟩
    by_cases hm : m = 0
    · -- A zero has the least exponent.
      have hzero : digits = 0 := by
        have hpos : (10 : ℚ) ^ p ≠ 0 := zpow_ne_zero p (by norm_num)
        simpa [shortest, hm, hpos] using hvalue
      have he : e = leastExponent := by
        refine hproper.2.2.2.resolve_right ?_
        rw [hm]
        decide
      rw [Numeral.toDouble, hzero, ofDecimal, if_pos rfl, zero, hm, he]
    · -- Whatever its digits, the decimal has a value that rounds to the double.
      refine ofDecimal_eq hm hproper ?_
      rw [hvalue]
      exact roundsTo_shortest hm hproper.2.2.1

theorem toList_render_ne_nil (x : Double) : (x.render .cells).toList ≠ [] := by
  intro hnil
  by_cases hnan : x = .nan
  · rw [hnan] at hnil
    cases hnil
  · obtain ⟨y, hy, -⟩ := exists_ofChars?_render hnan
    rw [hnil] at hy
    cases hy

/-- The text of a double does not stand for an integer. -/
theorem not_denotes_render (x : Double) (z : Int) : ¬ Denotes (x.render .cells).toList z := by
  intro hdenotes
  obtain ⟨negative, n, hread, -⟩ := hdenotes.exists_ofChars?
  by_cases hnan : x = .nan
  · have hnone : Numeral.ofChars? (render .cells .nan).toList = none := by decide
    rw [hnan, hnone] at hread
    cases hread
  · obtain ⟨y, hy, hinteger, -⟩ := exists_ofChars?_render hnan
    cases hread.symm.trans hy
    cases hinteger

end Double

namespace Numeral

theorem proper_toDouble (x : Numeral) : x.toDouble.Proper := by
  cases x with
  | decimal negative integral digits e => exact Double.proper_ofDecimal negative digits e
  | infinite negative => trivial

/-- A double that was read as a numeral is read back. -/
theorem readsBack_read : read.ReadsBack := by
  intro cs x y hx hy
  obtain ⟨number, -, -, hdouble⟩ := read_eq_some_iff.mp hx
  obtain ⟨again, hagain, -, hdouble'⟩ := read_eq_some_iff.mp hy
  obtain ⟨again', hagain', -, hvalue⟩ := Double.exists_ofChars?_render x.double_ne_nan
  obtain rfl : again = again' := Option.some.inj (hagain.symm.trans hagain')
  rw [← hdouble', hvalue (hdouble ▸ number.proper_toDouble)]

end Numeral

end Delimited
