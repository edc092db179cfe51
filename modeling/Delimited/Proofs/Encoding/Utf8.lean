import Delimited.Encoding.Basic
import Mathlib.Data.List.Basic
import Mathlib.Tactic.Core

/-!
# Decoding what was encoded

The bytes of a character are decoded as that character, whatever follows them, and
so the bytes of a text are decoded as that text. Under a byte order mark the mark
is dropped once: a text that starts with the same character keeps it.

## Main results

* `Utf8.decodeFrom_encodeChar_append`: one character.
* `Utf8.decode_encode`: a text.
* `Encoding.exists_encode_eq_and_decode_eq`: a text in either form of UTF-8.
-/

namespace Delimited

namespace Utf8

variable {b₀ b₁ b₂ b₃ : UInt8} {position : Nat} {t : List UInt8}

/-! ### One sequence of bytes

The decoder looks at up to four bytes, and unfolds where it is told which of them are
there. -/

theorem decodeFrom_one (h : b₀.toNat < 0x80) :
    decodeFrom position (b₀ :: t) =
      (decodeFrom (position + 1) t).map (Char.ofNat b₀.toNat :: ·) := by
  rcases t with _ | ⟨b₁, _ | ⟨b₂, _ | ⟨b₃, t⟩⟩⟩ <;> exact if_pos h

theorem decodeFrom_two (hlo : 0xC2 ≤ b₀.toNat) (hhi : b₀.toNat < 0xE0)
    (h₁ : follows b₀ b₁ = true) :
    decodeFrom position (b₀ :: b₁ :: t) =
      (decodeFrom (position + 2) t).map (Char.ofNat (extend (b₀.toNat - 0xC0) b₁) :: ·) := by
  have hascii : ¬ b₀.toNat < 0x80 := by omega
  have hstart : ¬ (b₀.toNat < 0xC2 ∨ 0xF4 < b₀.toNat) := by omega
  have hsecond : ¬ (!follows b₀ b₁) = true := by simp [h₁]
  rcases t with _ | ⟨b₂, _ | ⟨b₃, t⟩⟩ <;>
    exact (if_neg hascii).trans <| (if_neg hstart).trans <| (if_neg hsecond).trans (if_pos hhi)

theorem decodeFrom_three (hlo : 0xE0 ≤ b₀.toNat) (hhi : b₀.toNat < 0xF0)
    (h₁ : follows b₀ b₁ = true) (h₂ : continues b₂ = true) :
    decodeFrom position (b₀ :: b₁ :: b₂ :: t) =
      (decodeFrom (position + 3) t).map
        (Char.ofNat (extend (extend (b₀.toNat - 0xE0) b₁) b₂) :: ·) := by
  have hascii : ¬ b₀.toNat < 0x80 := by omega
  have hstart : ¬ (b₀.toNat < 0xC2 ∨ 0xF4 < b₀.toNat) := by omega
  have htwo : ¬ b₀.toNat < 0xE0 := by omega
  have hsecond : ¬ (!follows b₀ b₁) = true := by simp [h₁]
  have hthird : ¬ (!continues b₂) = true := by simp [h₂]
  rcases t with _ | ⟨b₃, t⟩ <;>
    exact (if_neg hascii).trans <| (if_neg hstart).trans <| (if_neg hsecond).trans <|
      (if_neg htwo).trans <| (if_neg hthird).trans (if_pos hhi)

theorem decodeFrom_four (hlo : 0xF0 ≤ b₀.toNat) (hhi : b₀.toNat ≤ 0xF4)
    (h₁ : follows b₀ b₁ = true) (h₂ : continues b₂ = true) (h₃ : continues b₃ = true) :
    decodeFrom position (b₀ :: b₁ :: b₂ :: b₃ :: t) =
      (decodeFrom (position + 4) t).map
        (Char.ofNat (extend (extend (extend (b₀.toNat - 0xF0) b₁) b₂) b₃) :: ·) := by
  have hascii : ¬ b₀.toNat < 0x80 := by omega
  have hstart : ¬ (b₀.toNat < 0xC2 ∨ 0xF4 < b₀.toNat) := by omega
  have htwo : ¬ b₀.toNat < 0xE0 := by omega
  have hthree : ¬ b₀.toNat < 0xF0 := by omega
  have hsecond : ¬ (!follows b₀ b₁) = true := by simp [h₁]
  have hthird : ¬ (!continues b₂) = true := by simp [h₂]
  have hfourth : ¬ (!continues b₃) = true := by simp [h₃]
  exact (if_neg hascii).trans <| (if_neg hstart).trans <| (if_neg hsecond).trans <|
    (if_neg htwo).trans <| (if_neg hthird).trans <| (if_neg hthree).trans (if_neg hfourth)

/-! ### The bytes of a character -/

/-- Characters are no surrogates and not too large. -/
theorem toNat_lt_or_le (c : Char) :
    c.toNat < 0xD800 ∨ (0xE000 ≤ c.toNat ∧ c.toNat < 0x110000) := by
  have h := c.valid
  simp only [UInt32.isValidChar, Nat.isValidChar, Char.toNat_val] at h
  omega

theorem toNat_toUInt8 {n : Nat} (h : n < 256) : n.toUInt8.toNat = n := by
  simp [Nat.toUInt8, Nat.mod_eq_of_lt h]

theorem continues_iff {b : UInt8} :
    continues b = true ↔ 0x80 ≤ b.toNat ∧ b.toNat ≤ 0xBF := by
  simp [continues]

/-- The last six bits of a number, in a byte that continues a character. -/
def low (n : Nat) : UInt8 := (0x80 + n % 64).toUInt8

theorem toNat_low (n : Nat) : (low n).toNat = 0x80 + n % 64 := toNat_toUInt8 (by omega)

theorem continues_low (n : Nat) : continues (low n) = true := by
  rw [continues_iff, toNat_low]
  omega

/-- Six bits put back after the bits before them. -/
theorem extend_low (n : Nat) : extend (n / 64) (low n) = n := by
  rw [extend, toNat_low]
  omega

theorem follows_low {b : UInt8} {n : Nat} (h₀ : b.toNat = 0xE0 → 0xA0 ≤ 0x80 + n % 64)
    (h₁ : b.toNat = 0xED → 0x80 + n % 64 ≤ 0x9F) (h₂ : b.toNat = 0xF0 → 0x90 ≤ 0x80 + n % 64)
    (h₃ : b.toNat = 0xF4 → 0x80 + n % 64 ≤ 0x8F) : follows b (low n) = true := by
  simp only [follows, continues_low, toNat_low, Bool.true_and]
  split
  · exact decide_eq_true (h₀ ‹_›)
  · exact decide_eq_true (h₁ ‹_›)
  · exact decide_eq_true (h₂ ‹_›)
  · exact decide_eq_true (h₃ ‹_›)
  · rfl

section

variable {c : Char}

theorem decodeFrom_encodeChar_two (hlo : 0x80 ≤ c.toNat) (hhi : c.toNat < 0x800) :
    decodeFrom position ((0xC0 + c.toNat / 64).toUInt8 :: low c.toNat :: t) =
      (decodeFrom (position + 2) t).map (c :: ·) := by
  have hb := toNat_toUInt8 (n := 0xC0 + c.toNat / 64) (by omega)
  have hfollows : follows (0xC0 + c.toNat / 64).toUInt8 (low c.toNat) = true := by
    apply follows_low <;> omega
  rw [decodeFrom_two (by omega) (by omega) hfollows, hb, Nat.add_sub_cancel_left, extend_low,
    Char.ofNat_toNat]

theorem decodeFrom_encodeChar_three (hlo : 0x800 ≤ c.toNat) (hhi : c.toNat < 0x10000) :
    decodeFrom position
        ((0xE0 + c.toNat / 4096).toUInt8 :: low (c.toNat / 64) :: low c.toNat :: t) =
      (decodeFrom (position + 3) t).map (c :: ·) := by
  have hvalid := toNat_lt_or_le c
  have hb := toNat_toUInt8 (n := 0xE0 + c.toNat / 4096) (by omega)
  -- A first byte `0xE0` or `0xED` bounds the second: nothing too long, no surrogate.
  have hfollows : follows (0xE0 + c.toNat / 4096).toUInt8 (low (c.toNat / 64)) = true := by
    apply follows_low <;> omega
  rw [decodeFrom_three (by omega) (by omega) hfollows (continues_low _), hb,
    Nat.add_sub_cancel_left, show c.toNat / 4096 = c.toNat / 64 / 64 by omega, extend_low,
    extend_low, Char.ofNat_toNat]

theorem decodeFrom_encodeChar_four (hlo : 0x10000 ≤ c.toNat) :
    decodeFrom position ((0xF0 + c.toNat / 262144).toUInt8 :: low (c.toNat / 4096) ::
        low (c.toNat / 64) :: low c.toNat :: t) =
      (decodeFrom (position + 4) t).map (c :: ·) := by
  have hvalid := toNat_lt_or_le c
  have hb := toNat_toUInt8 (n := 0xF0 + c.toNat / 262144) (by omega)
  -- A first byte `0xF0` or `0xF4` bounds the second: nothing too long or too large.
  have hfollows : follows (0xF0 + c.toNat / 262144).toUInt8 (low (c.toNat / 4096)) = true := by
    apply follows_low <;> omega
  rw [decodeFrom_four (by omega) (by omega) hfollows (continues_low _) (continues_low _), hb,
    Nat.add_sub_cancel_left, show c.toNat / 262144 = c.toNat / 4096 / 64 by omega, extend_low,
    show c.toNat / 4096 = c.toNat / 64 / 64 by omega, extend_low, extend_low, Char.ofNat_toNat]

end

/-- The bytes of a character are decoded as that character, whatever follows. -/
theorem decodeFrom_encodeChar_append (c : Char) (position : Nat) (t : List UInt8) :
    decodeFrom position (encodeChar c ++ t) =
      (decodeFrom (position + (encodeChar c).length) t).map (c :: ·) := by
  simp only [encodeChar]
  split
  · have hb : c.toNat.toUInt8.toNat = c.toNat := toNat_toUInt8 (by omega)
    rw [List.singleton_append, decodeFrom_one (by omega), hb, Char.ofNat_toNat]
    rfl
  · split
    · exact decodeFrom_encodeChar_two (by omega) (by omega)
    · split
      · exact decodeFrom_encodeChar_three (by omega) (by omega)
      · exact decodeFrom_encodeChar_four (by omega)

/-! ### The bytes of a text -/

theorem decodeFrom_encode (cs : List Char) (position : Nat) :
    decodeFrom position (encode cs) = .ok cs := by
  induction cs generalizing position with
  | nil => simp [encode, decodeFrom]
  | cons c cs ih =>
    rw [encode, List.flatMap_cons, decodeFrom_encodeChar_append, ← encode, ih]
    rfl

/-- The bytes of a text are decoded as that text. -/
theorem decode_encode (cs : List Char) : decode (encode cs) = .ok cs :=
  decodeFrom_encode cs 0

/-- One byte order mark is dropped, and the text after it may start with another. -/
theorem decodeMarked_mark_encode (cs : List Char) :
    decodeMarked (mark ++ encode cs) = .ok cs := by
  have hmark : mark.isPrefixOf (mark ++ encode cs) = true := by
    rw [List.isPrefixOf_iff_prefix]
    exact List.prefix_append mark (encode cs)
  rw [decodeMarked, if_pos hmark]
  exact decode_encode cs

end Utf8

namespace Encoding

/-- Every text has bytes in UTF-8, with or without a byte order mark, and is what
these bytes are decoded as. -/
theorem exists_encode_eq_and_decode_eq {e : Encoding} (h : e = utf8 ∨ e = utf8Marked)
    (s : String) : ∃ bytes, e.encode s = .ok bytes ∧ e.decode bytes = .ok s := by
  rcases h with rfl | rfl
  · refine ⟨Utf8.encode s.toList, rfl, ?_⟩
    simp [decode, decodeChars, Utf8.decode_encode, Except.mapError, Except.map]
  · refine ⟨Utf8.mark ++ Utf8.encode s.toList, rfl, ?_⟩
    simp [decode, decodeChars, Utf8.decodeMarked_mark_encode, Except.mapError, Except.map]

end Encoding

end Delimited
