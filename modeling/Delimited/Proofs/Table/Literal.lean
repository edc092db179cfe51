import Delimited.Table.Numeral
import Mathlib.Algebra.Group.Nat.Defs
import Mathlib.Data.List.Forall2
import Mathlib.Data.List.TakeWhile

/-!
# Integers in cells

A sign, if there is one, and digits stand for an integer. Neither of the two tests for
codes mentions a number, but together they keep integers short: what is left has at most
fifteen digits, and none of them is a zero in front of others. An integer of so few digits
that is written out is no code either.

## Main definitions

* `Signed`: characters with or without a sign in front.
* `IsPadded`, `IsRun`: the cells that look like numbers filled with zeros, and the cells
  that are digits only.
* `Denotes`: the integer that a sign and digits stand for.

## Main results

* `isCode_eq_true_iff`: the cells that only look like numbers.
* `Denotes.natAbs_lt`: an integer that is no code has few digits.
* `denotes_toString_int`, `isCode_toString_int`: integers that are written out.
-/

namespace Delimited

variable {digit : Char → Prop} {k n : Nat} {cs rest digits : List Char} {c : Char} {z : Int}

/-! ### Digits -/

theorem digitsValue_eq (cs : List Char) : digitsValue cs = Nat.ofDigitChars 10 cs 0 :=
  Nat.ofDigitChars_eq_foldl.symm

@[simp] theorem digitsValue_toDigits (n : Nat) : digitsValue (Nat.toDigits 10 n) = n := by
  rw [digitsValue_eq, Nat.ofDigitChars_ten_toDigits]

theorem toNat_sub_lt_of_isDigit {c : Char} (h : c.isDigit = true) :
    c.toNat - '0'.toNat < 10 := by
  simp only [Char.isDigit, Bool.and_eq_true, decide_eq_true_eq] at h
  have hle : c.toNat ≤ '9'.toNat := h.2
  have hnine : '9'.toNat = 57 := rfl
  have hzero : '0'.toNat = 48 := rfl
  omega

theorem digitsValue_lt (h : ∀ c ∈ cs, c.isDigit = true) : digitsValue cs < 10 ^ cs.length := by
  rw [digitsValue_eq]
  induction cs with
  | nil => simp
  | cons c cs ih =>
    have hrest := ih fun d hd => h d (by simp [hd])
    have hfirst := toNat_sub_lt_of_isDigit (h c (by simp))
    rw [Nat.ofDigitChars_cons, Nat.ofDigitChars_eq_ofDigitChars_zero, Nat.mul_zero, Nat.zero_add,
      List.length_cons, Nat.pow_succ]
    -- The first digit counts a power of ten at most nine times, the others less than once.
    calc
      10 ^ cs.length * (c.toNat - '0'.toNat) + Nat.ofDigitChars 10 cs 0
          < 10 ^ cs.length * (c.toNat - '0'.toNat) + 10 ^ cs.length := by omega
      _ = 10 ^ cs.length * (c.toNat - '0'.toNat + 1) := by rw [Nat.mul_succ]
      _ ≤ 10 ^ cs.length * 10 := Nat.mul_le_mul_left _ (by omega)

theorem isDigit_of_mem_toDigits {c : Char} (h : c ∈ Nat.toDigits 10 n) : c.isDigit = true :=
  Nat.isDigit_of_mem_toDigits (by decide) (by decide) h

/-- The digits of a number start with a zero only if there are no others. -/
theorem eq_nil_of_toDigits_eq_zero_cons (h : Nat.toDigits 10 n = '0' :: cs) : cs = [] := by
  by_contra hne
  have hdigits : ∀ c ∈ cs, c.isDigit = true := fun c hc =>
    isDigit_of_mem_toDigits (n := n) (by simp [h, hc])
  -- A zero in front adds nothing, so fewer digits are enough.
  have hvalue : n = digitsValue cs := by
    have heq := digitsValue_toDigits n
    rw [h, digitsValue_eq, Nat.ofDigitChars_cons] at heq
    rw [digitsValue_eq]
    exact heq.symm
  have hshort : (Nat.toDigits 10 n).length ≤ cs.length := by
    rw [Nat.length_toDigits_le_iff (by decide) (List.length_pos_iff.mpr hne), hvalue]
    exact digitsValue_lt hdigits
  rw [h, List.length_cons] at hshort
  omega

/-! ### Signs and digits -/

/-- The characters are `rest`, with or without a sign in front. -/
def Signed (rest cs : List Char) : Prop := cs = rest ∨ cs = '+' :: rest ∨ cs = '-' :: rest

/-- After a sign, if there is one, come a zero and another digit. -/
def IsPadded (digit : Char → Prop) (cs : List Char) : Prop :=
  ∃ c rest, digit c ∧ Signed ('0' :: c :: rest) cs

/-- After a sign, if there is one, come at least `k` digits and nothing else. -/
def IsRun (digit : Char → Prop) (k : Nat) (cs : List Char) : Prop :=
  ∃ digits, k ≤ digits.length ∧ (∀ c ∈ digits, digit c) ∧ Signed digits cs

/-- The ten digits are the digits among the ASCII characters. Others may be digits too. -/
def IsDigitClass (digit : Char → Prop) : Prop :=
  ∀ c : Char, c.toNat < 128 → (digit c ↔ c.isDigit = true)

theorem signed_splitSign (cs : List Char) : Signed (splitSign cs).2 cs := by
  unfold splitSign
  split
  · exact .inr (.inr rfl)
  · exact .inr (.inl rfl)
  · exact .inl rfl

theorem Signed.splitSign_eq (h : Signed rest cs) (hrest : ∀ c ∈ rest.head?, c ∉ ['+', '-']) :
    (splitSign cs).2 = rest := by
  rcases h with rfl | rfl | rfl
  · unfold splitSign
    split
    · simp at hrest
    · simp at hrest
    · rfl
  · rfl
  · rfl

theorem Signed.mem (h : Signed rest cs) (hc : c ∈ rest) : c ∈ cs := by
  rcases h with rfl | rfl | rfl <;> simp [hc]

theorem notMem_sign_of_isDigit (h : c.isDigit = true) : c ∉ ['+', '-'] := by
  simp only [List.mem_cons, List.not_mem_nil, or_false, not_or]
  constructor
  · rintro rfl
    exact absurd h (by decide)
  · rintro rfl
    exact absurd h (by decide)

theorem Signed.splitSign_eq_of_isDigit (h : Signed rest cs)
    (hdigits : ∀ c ∈ rest, c.isDigit = true) : (splitSign cs).2 = rest :=
  h.splitSign_eq fun c hc => notMem_sign_of_isDigit (hdigits c (List.mem_of_head? hc))

/-- The cells that only look like numbers are filled with zeros or have too many digits. -/
theorem isCode_eq_true_iff :
    isCode cs = true ↔ IsPadded (·.isDigit = true) cs ∨ IsRun (·.isDigit = true) 16 cs := by
  rw [isCode, Bool.or_eq_true]
  refine or_congr ⟨fun h => ?_, ?_⟩ ⟨fun h => ?_, ?_⟩
  · split at h
    · rename_i c rest hsplit
      exact ⟨c, rest, h, hsplit ▸ signed_splitSign cs⟩
    · cases h
  · rintro ⟨c, rest, hc, hsigned⟩
    rw [hsigned.splitSign_eq (by simp)]
    exact hc
  · rw [Bool.and_eq_true, decide_eq_true_eq, List.all_eq_true] at h
    exact ⟨_, h.1, h.2, signed_splitSign cs⟩
  · rintro ⟨digits, hlength, hdigits, hsigned⟩
    rw [hsigned.splitSign_eq_of_isDigit hdigits, Bool.and_eq_true, decide_eq_true_eq,
      List.all_eq_true]
    exact ⟨hlength, hdigits⟩

/-- A cell is no code if it is neither filled with zeros nor too long. -/
theorem isCode_eq_false_iff :
    isCode cs = false ↔ ¬ IsPadded (·.isDigit = true) cs ∧ ¬ IsRun (·.isDigit = true) 16 cs := by
  rw [← not_or, ← isCode_eq_true_iff, Bool.not_eq_true]

theorem isPadded_congr (h : ∀ c ∈ cs, (digit c ↔ c.isDigit = true)) :
    IsPadded digit cs ↔ IsPadded (·.isDigit = true) cs := by
  refine exists_congr fun c => exists_congr fun rest => and_congr_left fun hsigned => ?_
  exact h c (hsigned.mem (by simp))

theorem isRun_congr (h : ∀ c ∈ cs, (digit c ↔ c.isDigit = true)) :
    IsRun digit k cs ↔ IsRun (·.isDigit = true) k cs := by
  refine exists_congr fun digits => and_congr_right fun _ => and_congr_left fun hsigned => ?_
  exact forall₂_congr fun c hc => h c (hsigned.mem hc)

/-! ### Integers -/

/-- The integer that a sign, if there is one, and digits stand for. -/
inductive Denotes : List Char → Int → Prop where
  /-- Digits alone. -/
  | unsigned {digits : List Char} (hne : digits ≠ []) (h : ∀ c ∈ digits, c.isDigit = true) :
    Denotes digits (Nat.ofDigitChars 10 digits 0)
  /-- Digits after a plus sign. -/
  | plus {digits : List Char} (hne : digits ≠ []) (h : ∀ c ∈ digits, c.isDigit = true) :
    Denotes ('+' :: digits) (Nat.ofDigitChars 10 digits 0)
  /-- Digits after a minus sign. -/
  | minus {digits : List Char} (hne : digits ≠ []) (h : ∀ c ∈ digits, c.isDigit = true) :
    Denotes ('-' :: digits) (-(Nat.ofDigitChars 10 digits 0 : Int))

theorem exists_denotes_of_isRun (h : IsRun (·.isDigit = true) 1 cs) : ∃ z, Denotes cs z := by
  obtain ⟨digits, hlength, hdigits, rfl | rfl | rfl⟩ := h
  · exact ⟨_, .unsigned (List.ne_nil_of_length_pos hlength) hdigits⟩
  · exact ⟨_, .plus (List.ne_nil_of_length_pos hlength) hdigits⟩
  · exact ⟨_, .minus (List.ne_nil_of_length_pos hlength) hdigits⟩

theorem Denotes.exists_digits (h : Denotes cs z) :
    ∃ digits, digits ≠ [] ∧ (∀ c ∈ digits, c.isDigit = true) ∧ Signed digits cs ∧
      z.natAbs = digitsValue digits := by
  cases h with
  | unsigned hne hdigits =>
    exact ⟨_, hne, hdigits, .inl rfl, by rw [digitsValue_eq, Int.natAbs_natCast]⟩
  | plus hne hdigits =>
    exact ⟨_, hne, hdigits, .inr (.inl rfl), by rw [digitsValue_eq, Int.natAbs_natCast]⟩
  | minus hne hdigits =>
    refine ⟨_, hne, hdigits, .inr (.inr rfl), ?_⟩
    rw [digitsValue_eq, Int.natAbs_neg, Int.natAbs_natCast]

theorem Denotes.isRun (h : Denotes cs z) : IsRun (·.isDigit = true) 1 cs := by
  obtain ⟨digits, hne, hdigits, hsigned, -⟩ := h.exists_digits
  exact ⟨digits, List.length_pos_iff.mpr hne, hdigits, hsigned⟩

theorem Denotes.ne_nil (h : Denotes cs z) : cs ≠ [] := by
  cases h with
  | unsigned hne hdigits => exact hne
  | plus hne hdigits => nofun
  | minus hne hdigits => nofun

/-- An integer that is not a code has at most fifteen digits. -/
theorem Denotes.natAbs_lt (h : Denotes cs z) (hcode : isCode cs = false) : z.natAbs < 10 ^ 15 := by
  obtain ⟨digits, -, hdigits, hsigned, hvalue⟩ := h.exists_digits
  have hlength : digits.length ≤ 15 := by
    by_contra hlong
    exact (isCode_eq_false_iff.mp hcode).2 ⟨digits, by omega, hdigits, hsigned⟩
  calc
    z.natAbs = digitsValue digits := hvalue
    _ < 10 ^ digits.length := digitsValue_lt hdigits
    _ ≤ 10 ^ 15 := Nat.pow_le_pow_right (by decide) hlength

/-! ### Integers that are written out -/

theorem toList_toString_int (z : Int) :
    (toString z).toList = (if z < 0 then ['-'] else []) ++ Nat.toDigits 10 z.natAbs := by
  cases z with
  | ofNat m =>
    change m.repr.toList = _
    rw [Nat.toList_repr, if_neg (by simp)]
    rfl
  | negSucc m =>
    change ("-" ++ (m + 1).repr).toList = _
    rw [← Nat.toList_repr, if_pos (Int.negSucc_lt_zero m)]
    simp

theorem isBlank_eq_false_of_isDigit {c : Char} (h : c.isDigit = true) :
    Text.isBlank c = false := by
  have hdigit := Char.isDigit_iff_toNat.mp h
  have hzero : '0'.toNat = 48 := rfl
  have hnine : '9'.toNat = 57 := rfl
  simp only [Text.isBlank, decide_eq_false_iff_not]
  omega

theorem stripChars_eq_self (h : ∀ c ∈ cs, Text.isBlank c = false) : Text.stripChars cs = cs := by
  have hkeep (l : List Char) (hl : ∀ c ∈ l, c ∈ cs) : l.dropWhile Text.isBlank = l := by
    refine List.dropWhile_eq_self_iff.mpr fun hpos => ?_
    simp [h _ (hl _ (List.getElem_mem hpos))]
  rw [Text.stripChars, hkeep cs (by simp), hkeep cs.reverse (by simp), List.reverse_reverse]

/-- Nothing stands around the digits of an integer. -/
theorem stripChars_toString_int (z : Int) :
    Text.stripChars (toString z).toList = (toString z).toList := by
  refine stripChars_eq_self fun c hc => ?_
  rw [toList_toString_int] at hc
  rcases List.mem_append.mp hc with hsign | hdigit
  · split at hsign
    · rw [List.mem_singleton.mp hsign]
      decide
    · simp at hsign
  · exact isBlank_eq_false_of_isDigit (isDigit_of_mem_toDigits hdigit)

/-- An integer is written as digits, after a sign if it is negative. -/
theorem signed_toString_int (z : Int) : Signed (Nat.toDigits 10 z.natAbs) (toString z).toList := by
  rw [toList_toString_int]
  split
  · exact .inr (.inr rfl)
  · exact .inl rfl

/-- An integer that is written out stands for itself. -/
theorem denotes_toString_int (z : Int) : Denotes (toString z).toList z := by
  have hne : Nat.toDigits 10 z.natAbs ≠ [] := Nat.toDigits_ne_nil
  have hdigits : ∀ c ∈ Nat.toDigits 10 z.natAbs, c.isDigit = true := fun c =>
    isDigit_of_mem_toDigits
  rw [toList_toString_int]
  split
  · have hminus := Denotes.minus hne hdigits
    have hz : -(z.natAbs : Int) = z := by omega
    rw [Nat.ofDigitChars_ten_toDigits, hz] at hminus
    exact hminus
  · have hplain := Denotes.unsigned hne hdigits
    have hz : (z.natAbs : Int) = z := by omega
    rw [Nat.ofDigitChars_ten_toDigits, hz] at hplain
    exact hplain

/-- An integer of few digits does not look like a code. -/
theorem isCode_toString_int (h : z.natAbs < 10 ^ 15) : isCode (toString z).toList = false := by
  have hlength : (Nat.toDigits 10 z.natAbs).length ≤ 15 :=
    (Nat.length_toDigits_le_iff (by decide) (by decide)).mpr h
  have hdigits : (splitSign (toString z).toList).2 = Nat.toDigits 10 z.natAbs :=
    (signed_toString_int z).splitSign_eq_of_isDigit fun c => isDigit_of_mem_toDigits
  rw [isCode, hdigits, Bool.or_eq_false_iff]
  constructor
  · -- No zero stands before other digits.
    split
    · rename_i c cs hcs
      exact absurd (eq_nil_of_toDigits_eq_zero_cons hcs) (by simp)
    · rfl
  · rw [Bool.and_eq_false_iff]
    left
    exact decide_eq_false (by simp only [longInteger]; omega)

end Delimited
