import Delimited.Proofs.Yaml.Single
import Mathlib.Tactic.IntervalCases

/-!
# Texts between double quotes

A text that is written between double quotes is read back. Every character that
has another meaning there, or that a settings file cannot hold, is written as an
escape, and every escape stands for the character it was made of. Lines are joined
without a space where they are folded, so that a space there is escaped.

## Main definitions

* `hexStep`: the value of hexadecimal digits, digit by digit.
* `DoubleReady`: what the reader keeps for what the writer has written last.

## Main results

* `exists_doubleFrom_escape`: an escape stands for its character.
* `doubleFrom_printDouble`: a text between double quotes is read back.
-/

namespace Delimited.Yaml

variable {c : Char} {cs rest found text : List Char} {multiline first afterEscape : Bool}
  {pending : Pending} {column position n : Nat}

/-! ### Escapes by letter -/

/-- The letters of the writer are those of the reader. -/
theorem lookup_escapes_of_mem_letters :
    ∀ p ∈ letters, escapes.lookup p.2 = some p.1 ∧ isBreak p.2 = false := by
  decide

theorem lookup_escapes_of_lookup_letters {letter : Char} (h : letters.lookup c = some letter) :
    escapes.lookup letter = some c ∧ isBreak letter = false := by
  obtain ⟨before, after, hletters, -⟩ := List.lookup_eq_some_iff.mp h
  exact lookup_escapes_of_mem_letters (c, letter) (by rw [hletters]; simp)

/-! ### Escapes by code -/

/-- One more hexadecimal digit. -/
def hexStep (value : Nat) (c : Char) : Option Nat := (hexValue? c).map (16 * value + ·)

theorem hexValue?_toUpper_digitChar (h : n < 16) :
    hexValue? (Nat.digitChar n).toUpper = some n := by
  interval_cases n <;> rfl

/-- The digits of a number have its value. -/
theorem foldlM_hexStep_toDigits (n : Nat) :
    ((Nat.toDigits 16 n).map Char.toUpper).foldlM hexStep 0 = some n := by
  -- The last digit is split off, and the others are those of the quotient.
  induction n using Nat.strongRecOn with
  | ind n ih =>
    by_cases h : n < 16
    · simp [Nat.toDigits_of_lt_base h, hexStep, hexValue?_toUpper_digitChar h]
    · have hlast : n % 16 < 16 := Nat.mod_lt n (by decide)
      have hdigits := Nat.toDigits_append_toDigits (b := 16) (by decide) (n := n / 16) (by omega)
        hlast
      rw [Nat.div_add_mod, Nat.toDigits_of_lt_base hlast] at hdigits
      rw [← hdigits, List.map_append, List.foldlM_append, ih (n / 16) (by omega)]
      simp [hexStep, hexValue?_toUpper_digitChar hlast, Nat.div_add_mod]

theorem foldlM_hexStep_replicate (k : Nat) (cs : List Char) :
    (List.replicate k '0' ++ cs).foldlM hexStep 0 = cs.foldlM hexStep 0 := by
  induction k with
  | zero => rfl
  | succ k ih =>
    rw [List.replicate_succ, List.cons_append, List.foldlM_cons]
    exact ih

theorem foldlM_hexStep_capitalHex (k n : Nat) : (capitalHex k n).foldlM hexStep 0 = some n := by
  rw [capitalHex, foldlM_hexStep_replicate, foldlM_hexStep_toDigits]

theorem length_capitalHex {k : Nat} (hk : 0 < k) (h : n < 16 ^ k) :
    (capitalHex k n).length = k := by
  have hlength := (Nat.length_toDigits_le_iff (b := 16) (by decide) hk).mpr h
  simp only [capitalHex, List.length_append, List.length_replicate, List.length_map]
  omega

/-- Digits of the right number are read as the character of their value. -/
theorem doubleFrom_code {value : Nat} {digits : List Char} (hdigits : digits ≠ [])
    (hvalue : digits.foldlM hexStep value = some c.toNat) :
    doubleFrom found multiline (.code digits.length value) position (digits ++ rest) =
      doubleFrom (c :: found) multiline .none (position + digits.length) rest := by
  induction digits generalizing value position with
  | nil => exact absurd rfl hdigits
  | cons d digits ih =>
    rw [List.foldlM_cons, hexStep] at hvalue
    cases hd : hexValue? d with
    | none => simp [hd] at hvalue
    | some digit =>
      replace hvalue : digits.foldlM hexStep (16 * value + digit) = some c.toNat := by
        simpa [hd] using hvalue
      rw [List.cons_append, doubleFrom]
      simp only [hd, List.length_cons]
      -- The last digit makes the character, the others only add to the value.
      cases digits with
      | nil =>
        have hlast : 16 * value + digit = c.toNat := by simpa using hvalue
        have hvalid : c.toNat.isValidChar := c.valid
        simp [hlast, hvalid]
      | cons e digits =>
        rw [if_neg (by simp)]
        exact (ih (by simp) hvalue).trans (by simp [Nat.add_assoc, Nat.add_comm])

theorem doubleFrom_escape_letter {letter : Char} (h : letters.lookup c = some letter) :
    doubleFrom found multiline .escape position (letter :: rest) =
      doubleFrom (c :: found) multiline .none (position + 1) rest := by
  obtain ⟨hlookup, hbreak⟩ := lookup_escapes_of_lookup_letters h
  rw [doubleFrom]
  simp [hlookup, hbreak]

theorem doubleFrom_escape_code {mark : Char} {k : Nat}
    (hmark : (mark, k) ∈ [('x', 2), ('u', 4), ('U', 8)]) (h : c.toNat < 16 ^ k) :
    doubleFrom found multiline .escape position (mark :: capitalHex k c.toNat ++ rest) =
      doubleFrom (c :: found) multiline .none (position + 1 + k) rest := by
  have hall : ∀ p ∈ [('x', 2), ('u', 4), ('U', 8)], isBreak p.1 = false ∧
      escapes.lookup p.1 = none ∧ codeWidth? p.1 = some p.2 ∧ 0 < p.2 := by decide
  obtain ⟨hbreak, hlookup, hwidth, hk⟩ := hall _ hmark
  have hlength : (capitalHex k c.toNat).length = k := length_capitalHex hk h
  have hdigits : capitalHex k c.toNat ≠ [] := by
    rw [← List.length_pos_iff, hlength]
    exact hk
  rw [List.cons_append, doubleFrom]
  simp only [hbreak, hlookup, hwidth]
  calc
    doubleFrom found multiline (.code k 0) (position + 1) (capitalHex k c.toNat ++ rest)
      = doubleFrom found multiline (.code (capitalHex k c.toNat).length 0) (position + 1)
          (capitalHex k c.toNat ++ rest) := by rw [hlength]
    _ = doubleFrom (c :: found) multiline .none (position + 1 + (capitalHex k c.toNat).length)
          rest := doubleFrom_code hdigits (foldlM_hexStep_capitalHex k c.toNat)
    _ = doubleFrom (c :: found) multiline .none (position + 1 + k) rest := by rw [hlength]

/-- An escape stands for the character that it was made of. -/
theorem exists_doubleFrom_escape (h : escape? c = some text) :
    ∃ tail, text = '\\' :: tail ∧ ∀ found multiline position rest, ∃ position',
      doubleFrom found multiline .escape position (tail ++ rest) =
        doubleFrom (c :: found) multiline .none position' rest := by
  unfold escape? at h
  split at h
  · rename_i letter hletter
    cases h
    exact ⟨_, rfl, fun _ _ _ _ => ⟨_, doubleFrom_escape_letter hletter⟩⟩
  · -- The widths 2, 4 and 8 hold every code they are chosen for.
    dsimp only at h
    split at h
    · cases h
    split at h
    · cases h
      exact ⟨_, rfl, fun _ _ _ _ => ⟨_, doubleFrom_escape_code (k := 2) (by decide) (by omega)⟩⟩
    split at h
    · cases h
      exact ⟨_, rfl, fun _ _ _ _ => ⟨_, doubleFrom_escape_code (k := 4) (by decide) (by omega)⟩⟩
    · cases h
      have hvalid : c.toNat < 16 ^ 8 := c.val.toNat_lt
      exact ⟨_, rfl, fun _ _ _ _ => ⟨_, doubleFrom_escape_code (k := 8) (by decide) hvalid⟩⟩

/-- A character that is not escaped has no other meaning between quotes. -/
theorem of_escape?_eq_none (h : escape? c = none) :
    isBreak c = false ∧ c ≠ '\t' ∧ c ≠ '"' ∧ c ≠ '\\' := by
  have hescaped : ∀ d ∈ ['\n', '\u0085', '\u2028', '\u2029', '\t', '"', '\\'],
      (escape? d).isSome = true := List.all_eq_true.mp (by decide)
  have hne : ∀ d ∈ ['\n', '\u0085', '\u2028', '\u2029', '\t', '"', '\\'], c ≠ d := by
    rintro d hd rfl
    simpa [h] using hescaped c hd
  refine ⟨?_, hne '\t' (by decide), hne '"' (by decide), hne '\\' (by decide)⟩
  simp [isBreak, hne '\n' (by decide), hne '\u0085' (by decide), hne '\u2028' (by decide),
    hne '\u2029' (by decide)]

/-! ### Steps of the reader -/

/-- Whether the reader is not inside an escape. -/
def Pending.IsOpen : Pending → Prop
  | .escape => False
  | .code _ _ => False
  | _ => True

theorem Pending.isOpen_none : Pending.none.IsOpen := trivial

theorem Pending.isOpen_blanks (found : List Char) : (Pending.blanks found).IsOpen := trivial

theorem Pending.isOpen_joined (found : List Char) : (Pending.joined found).IsOpen := trivial

theorem doubleFrom_cons_of_isOpen (h : pending.IsOpen) :
    doubleFrom found multiline pending position (c :: cs) =
      if isBreak c then
        if isMarker cs then none else doubleFrom found true (pending.break c) 0 cs
      else if c = ' ' ∨ c = '\t' then
        doubleFrom found multiline (pending.blank c) (position + 1) cs
      else if c = '"' then
        some (⟨(pending.textRev ++ found).reverse, multiline⟩, ⟨cs, position + 1⟩)
      else if c = '\\' then
        doubleFrom (pending.textRev ++ found) multiline .escape (position + 1) cs
      else doubleFrom (c :: pending.textRev ++ found) multiline .none (position + 1) cs := by
  rw [doubleFrom.eq_def]
  cases pending with
  | escape => exact h.elim
  | code => exact h.elim
  | none | blanks | breaks | joined => rfl

theorem doubleFrom_backslash (h : pending.IsOpen) :
    doubleFrom found multiline pending position ('\\' :: cs) =
      doubleFrom (pending.textRev ++ found) multiline .escape (position + 1) cs := by
  simp [doubleFrom_cons_of_isOpen h, isBreak]

theorem doubleFrom_quote (h : pending.IsOpen) :
    doubleFrom found multiline pending position ('"' :: rest) =
      some (⟨(pending.textRev ++ found).reverse, multiline⟩, ⟨rest, position + 1⟩) := by
  simp [doubleFrom_cons_of_isOpen h, isBreak]

theorem doubleFrom_space (h : pending.IsOpen) :
    doubleFrom found multiline pending position (' ' :: cs) =
      doubleFrom found multiline (pending.blank ' ') (position + 1) cs := by
  simp [doubleFrom_cons_of_isOpen h, isBreak]

theorem doubleFrom_other (h : pending.IsOpen) (hc : escape? c = none) (hspace : c ≠ ' ') :
    doubleFrom found multiline pending position (c :: cs) =
      doubleFrom (c :: pending.textRev ++ found) multiline .none (position + 1) cs := by
  obtain ⟨hbreak, htab, hquote, hslash⟩ := of_escape?_eq_none hc
  simp [doubleFrom_cons_of_isOpen h, hbreak, hspace, htab, hquote, hslash]

/-- An escaped space is a space. -/
theorem doubleFrom_escape_space :
    doubleFrom found multiline .escape position (' ' :: cs) =
      doubleFrom (' ' :: found) multiline .none (position + 1) cs := by
  rw [doubleFrom]
  rfl

/-- An escaped line end joins the line before it with the text on the next line. -/
theorem doubleFrom_join (h : pending.IsOpen) :
    doubleFrom found multiline pending position ('\\' :: '\n' :: (margin ++ cs)) =
      doubleFrom (pending.textRev ++ found) true (.joined []) continuation cs := by
  rw [doubleFrom_backslash h, doubleFrom]
  simp only [isMarker_margin_append, show isBreak '\n' = true from rfl, if_true,
    Bool.false_eq_true, if_false]
  simp [margin, continuation, List.replicate, doubleFrom_space (Pending.isOpen_joined []),
    Pending.blank]

/-! ### Writing and reading -/

/-- What the reader keeps where the writer goes on with a text in a column. At the
start of a line that was joined a space is escaped. -/
inductive DoubleReady : Pending → Nat → List Char → Prop where
  /-- Text was written. -/
  | text (column : Nat) (cs : List Char) : DoubleReady .none column cs
  /-- Spaces were written. -/
  | spaces (found : List Char) (column : Nat) (cs : List Char) :
    DoubleReady (.blanks found) column cs
  /-- The line was joined. -/
  | joined (column : Nat) {cs : List Char} (hspace : cs.head? ≠ some ' ') :
    DoubleReady (.joined []) column cs
  /-- The line was joined, and a space is to be escaped. -/
  | escape {column : Nat} (hcolumn : column ≤ width) (cs : List Char) :
    DoubleReady .escape column (' ' :: cs)

theorem DoubleReady.isOpen (hready : DoubleReady pending column (c :: cs)) (hc : c ≠ ' ') :
    pending.IsOpen := by
  cases hready with
  | text | spaces | joined => trivial
  | escape => exact absurd rfl hc

theorem DoubleReady.isOpen_of_lt (hready : DoubleReady pending column cs) (h : width < column) :
    pending.IsOpen := by
  cases hready with
  | text | spaces | joined => trivial
  | escape hcolumn => exact absurd h (Nat.not_lt.mpr hcolumn)

/-- Any text is read back after it was written between double quotes. -/
theorem doubleFrom_printDouble (hready : DoubleReady pending column cs) :
    ReadsAs (doubleFrom found multiline pending position
      (printDouble column first afterEscape cs ++ rest))
      (found.reverse ++ pending.textRev.reverse ++ cs) rest := by
  -- `DoubleReady` carries the induction: it ties what the reader has pending to the
  -- character that the writer is at.
  induction cs generalizing found multiline pending position column first afterEscape with
  | nil =>
    have hopen : pending.IsOpen := by cases hready <;> trivial
    refine ⟨multiline, position + 1, ?_⟩
    simp [printDouble, doubleFrom_quote hopen]
  | cons c cs ih =>
    rw [printDouble]
    cases hescape : escape? c with
    | some text =>
      have hspace : c ≠ ' ' := by
        rintro rfl
        cases hescape
      have hopen := hready.isOpen hspace
      obtain ⟨tail, rfl, hread⟩ := exists_doubleFrom_escape hescape
      dsimp only
      split
      · -- The line ends after the escape; a space that comes next is escaped in turn.
        simp only [List.cons_append, List.append_assoc]
        rw [doubleFrom_backslash hopen]
        obtain ⟨position', hread⟩ := hread (pending.textRev ++ found) multiline (position + 1) _
        rw [hread, doubleFrom_join Pending.isOpen_none]
        by_cases hnext : cs.head? = some ' '
        · obtain ⟨cs, rfl⟩ := List.head?_eq_some_iff.mp hnext
          rw [if_pos hnext, List.cons_append, List.nil_append,
            doubleFrom_backslash (Pending.isOpen_joined [])]
          exact (ih (.escape (by decide) cs)).cast (by simp [Pending.textRev])
        · rw [if_neg hnext, List.nil_append]
          exact (ih (.joined _ hnext)).cast (by simp [Pending.textRev])
      · simp only [List.cons_append, List.append_assoc]
        rw [doubleFrom_backslash hopen]
        obtain ⟨position', hread⟩ := hread (pending.textRev ++ found) multiline (position + 1) _
        rw [hread]
        exact (ih (.text _ cs)).cast (by simp)
    | none =>
      dsimp only
      split
      · -- The line ends before the character.
        rename_i hfold
        have hopen : pending.IsOpen := by
          simp only [Bool.and_eq_true, decide_eq_true_eq] at hfold
          exact hready.isOpen_of_lt hfold.2
        simp only [List.cons_append, List.append_assoc]
        rw [doubleFrom_join hopen]
        by_cases hspace : c = ' '
        · subst hspace
          rw [if_pos rfl, List.cons_append, List.nil_append,
            doubleFrom_backslash (Pending.isOpen_joined []), doubleFrom_escape_space]
          exact (ih (.text _ cs)).cast (by simp [Pending.textRev])
        · rw [if_neg hspace, List.nil_append,
            doubleFrom_other (Pending.isOpen_joined []) hescape hspace]
          exact (ih (.text _ cs)).cast (by simp [Pending.textRev])
      · by_cases hspace : c = ' '
        · subst hspace
          rw [List.cons_append]
          -- The backslash of an escaped space was written with the end of the line.
          cases hready with
          | text =>
            rw [doubleFrom_space Pending.isOpen_none]
            exact (ih (.spaces _ _ cs)).cast (by simp [Pending.textRev])
          | spaces blanks =>
            rw [doubleFrom_space (Pending.isOpen_blanks blanks)]
            exact (ih (.spaces _ _ cs)).cast (by simp [Pending.textRev])
          | joined _ hstart => exact absurd rfl hstart
          | escape =>
            rw [doubleFrom_escape_space]
            exact (ih (.text _ cs)).cast (by simp [Pending.textRev])
        · rw [List.cons_append, doubleFrom_other (hready.isOpen hspace) hescape hspace]
          exact (ih (.text _ cs)).cast (by simp)

theorem doubleQuoted_printDouble :
    ReadsAs (doubleQuoted ⟨'"' :: printDouble column first afterEscape cs ++ rest, position⟩) cs
      rest :=
  doubleFrom_printDouble (.text column cs)

end Delimited.Yaml
