import Delimited.Proofs.Encoding.Utf8

/-!
# Bytes that are no text

All bytes begin with the bytes of a text, up to their end or up to bytes that begin
no character. Decoding finds this place: it gives the text when the bytes are those of
a text, and otherwise the place of the first sequence that is wrong.

## Main definitions

* `Utf8.FirstInvalid bytes n`: the first wrong sequence of some bytes stands at `n`.

## Main results

* `Utf8.exists_encodeChar_append_or_error`: what bytes begin with.
* `Utf8.decode_eq_ok_iff`: the bytes of a text, and only these, are decoded as it.
* `Utf8.firstInvalid_iff`: other bytes are rejected where they first are wrong.
-/

namespace Delimited.Utf8

variable {b₀ b₁ b₂ b₃ : UInt8} {bytes rest : List UInt8} {cs : List Char} {e : DecodeError}
  {n position : Nat}

/-! ### Sequences that are accepted -/

theorem follows_iff :
    follows b₀ b₁ = true ↔ (0x80 ≤ b₁.toNat ∧ b₁.toNat ≤ 0xBF) ∧
      (b₀.toNat = 0xE0 → 0xA0 ≤ b₁.toNat) ∧ (b₀.toNat = 0xED → b₁.toNat ≤ 0x9F) ∧
      (b₀.toNat = 0xF0 → 0x90 ≤ b₁.toNat) ∧ (b₀.toNat = 0xF4 → b₁.toNat ≤ 0x8F) := by
  rw [follows, Bool.and_eq_true, continues_iff]
  refine and_congr_right fun _ => ?_
  split <;> simp_all

theorem toNat_ofNat (h : n < 0xD800 ∨ (0xE000 ≤ n ∧ n < 0x110000)) : (Char.ofNat n).toNat = n := by
  have hvalid : n.isValidChar := by
    simp only [Nat.isValidChar]
    omega
  rw [Char.ofNat, dif_pos hvalid]
  rfl

theorem toUInt8_eq_iff {b : UInt8} (h : n < 256) : n.toUInt8 = b ↔ n = b.toNat := by
  rw [← UInt8.toNat_inj, toNat_toUInt8 h]

theorem encodeChar_one (h : b₀.toNat < 0x80) : encodeChar (Char.ofNat b₀.toNat) = [b₀] := by
  have hn := toNat_ofNat (n := b₀.toNat) (by omega)
  simp [encodeChar, hn, h]

theorem encodeChar_two (hlo : 0xC2 ≤ b₀.toNat) (hhi : b₀.toNat < 0xE0)
    (h₁ : follows b₀ b₁ = true) :
    encodeChar (Char.ofNat (extend (b₀.toNat - 0xC0) b₁)) = [b₀, b₁] := by
  obtain ⟨hb₁, -⟩ := follows_iff.mp h₁
  have hn := toNat_ofNat (n := extend (b₀.toNat - 0xC0) b₁) (by
    simp only [extend]
    omega)
  simp only [extend] at hn ⊢
  rw [encodeChar, hn, if_neg (by omega), if_pos (by omega)]
  simp only [List.cons.injEq]
  refine ⟨?_, ?_, trivial⟩
  all_goals
    rw [toUInt8_eq_iff (by omega)]
    omega

/-- The bounds on a second byte leave out what is written too long and the surrogates. -/
theorem encodeChar_three (hlo : 0xE0 ≤ b₀.toNat) (hhi : b₀.toNat < 0xF0)
    (h₁ : follows b₀ b₁ = true) (h₂ : continues b₂ = true) :
    encodeChar (Char.ofNat (extend (extend (b₀.toNat - 0xE0) b₁) b₂)) = [b₀, b₁, b₂] := by
  obtain ⟨hb₁, hlong, hsurrogate, -⟩ := follows_iff.mp h₁
  have hb₂ := continues_iff.mp h₂
  have hn := toNat_ofNat (n := extend (extend (b₀.toNat - 0xE0) b₁) b₂) (by
    simp only [extend]
    omega)
  simp only [extend] at hn ⊢
  rw [encodeChar, hn, if_neg (by omega), if_neg (by omega), if_pos (by omega)]
  simp only [List.cons.injEq]
  refine ⟨?_, ?_, ?_, trivial⟩
  all_goals
    rw [toUInt8_eq_iff (by omega)]
    omega

/-- The bounds on a second byte leave out what is written too long and what is too large. -/
theorem encodeChar_four (hlo : 0xF0 ≤ b₀.toNat) (hhi : b₀.toNat ≤ 0xF4)
    (h₁ : follows b₀ b₁ = true) (h₂ : continues b₂ = true) (h₃ : continues b₃ = true) :
    encodeChar (Char.ofNat (extend (extend (extend (b₀.toNat - 0xF0) b₁) b₂) b₃)) =
      [b₀, b₁, b₂, b₃] := by
  obtain ⟨hb₁, -, -, hlong, hlarge⟩ := follows_iff.mp h₁
  have hb₂ := continues_iff.mp h₂
  have hb₃ := continues_iff.mp h₃
  have hn := toNat_ofNat (n := extend (extend (extend (b₀.toNat - 0xF0) b₁) b₂) b₃) (by
    simp only [extend]
    omega)
  simp only [extend] at hn ⊢
  rw [encodeChar, hn, if_neg (by omega), if_neg (by omega), if_neg (by omega)]
  simp only [List.cons.injEq]
  refine ⟨?_, ?_, ?_, ?_, trivial⟩
  all_goals
    rw [toUInt8_eq_iff (by omega)]
    omega

/-! ### What bytes begin with -/

/-- Bytes begin with those of a character, or they are rejected at their start. The
cases are those of the decoder. -/
theorem exists_encodeChar_append_or_error (position : Nat) (h : bytes ≠ []) :
    (∃ c t, bytes = encodeChar c ++ t) ∨
      ∃ e, decodeFrom position bytes = .error e ∧ e.position = position := by
  fun_cases decodeFrom position bytes with
  | case1 => exact absurd rfl h
  | case2 b₀ t hone => exact .inl ⟨_, t, by rw [encodeChar_one hone, List.singleton_append]⟩
  | case3 => exact .inr ⟨_, rfl, rfl⟩
  | case4 => exact .inr ⟨_, rfl, rfl⟩
  | case5 => exact .inr ⟨_, rfl, rfl⟩
  | case6 b₀ hone hstart b₁ t h₁ htwo =>
    have hsecond : follows b₀ b₁ = true := by simpa using h₁
    have henc := encodeChar_two (by omega) htwo hsecond
    exact .inl ⟨_, t, by rw [henc]; rfl⟩
  | case7 => exact .inr ⟨_, rfl, rfl⟩
  | case8 => exact .inr ⟨_, rfl, rfl⟩
  | case9 b₀ hone hstart b₁ h₁ htwo b₂ t h₂ hthree =>
    have hsecond : follows b₀ b₁ = true := by simpa using h₁
    have hthird : continues b₂ = true := by simpa using h₂
    have henc := encodeChar_three (by omega) hthree hsecond hthird
    exact .inl ⟨_, t, by rw [henc]; rfl⟩
  | case10 => exact .inr ⟨_, rfl, rfl⟩
  | case11 => exact .inr ⟨_, rfl, rfl⟩
  | case12 b₀ hone hstart b₁ h₁ htwo b₂ h₂ hthree b₃ t h₃ =>
    have hsecond : follows b₀ b₁ = true := by simpa using h₁
    have hthird : continues b₂ = true := by simpa using h₂
    have hfourth : continues b₃ = true := by simpa using h₃
    have henc := encodeChar_four (by omega) (by omega) hsecond hthird hfourth
    exact .inl ⟨_, t, by rw [henc]; rfl⟩

theorem length_encodeChar_pos (c : Char) : 0 < (encodeChar c).length := by
  simp only [encodeChar]
  split_ifs <;> simp

@[simp] theorem encode_nil : encode [] = [] := rfl

@[simp] theorem encode_cons (c : Char) (cs : List Char) :
    encode (c :: cs) = encodeChar c ++ encode cs := rfl

/-- The bytes of a text are decoded as that text, whatever follows. -/
theorem decodeFrom_encode_append (cs : List Char) (position : Nat) (rest : List UInt8) :
    decodeFrom position (encode cs ++ rest) =
      (decodeFrom (position + (encode cs).length) rest).map (cs ++ ·) := by
  induction cs generalizing position with
  | nil =>
    rw [encode_nil, List.nil_append, List.length_nil, Nat.add_zero]
    cases decodeFrom position rest <;> rfl
  | cons c cs ih =>
    rw [encode_cons, List.append_assoc, decodeFrom_encodeChar_append, ih, List.length_append,
      ← Nat.add_assoc]
    cases decodeFrom (position + (encodeChar c).length + (encode cs).length) rest <;> rfl

/-- Bytes begin with those of a text, and what follows is nothing or is rejected. -/
theorem exists_encode_append (position : Nat) (bytes : List UInt8) :
    ∃ cs rest, bytes = encode cs ++ rest ∧
      (rest = [] ∨ ∃ e, decodeFrom (position + (encode cs).length) rest = .error e ∧
        e.position = position + (encode cs).length) := by
  generalize hn : bytes.length = n
  -- The induction is on the number of bytes, and every character takes one at least.
  induction n using Nat.strongRecOn generalizing bytes position with
  | _ n ih =>
    by_cases hnil : bytes = []
    · exact ⟨[], [], hnil, .inl rfl⟩
    rcases exists_encodeChar_append_or_error position hnil with ⟨c, t, rfl⟩ | herror
    · have hpos := length_encodeChar_pos c
      rw [List.length_append] at hn
      obtain ⟨cs, rest, rfl, hrest⟩ :=
        ih t.length (by omega) (position + (encodeChar c).length) t rfl
      refine ⟨c :: cs, rest, by simp, ?_⟩
      rwa [encode_cons, List.length_append, ← Nat.add_assoc]
    · exact ⟨[], bytes, rfl, .inr herror⟩

/-- Nothing is rejected before the start. -/
theorem le_position_of_decodeFrom (h : decodeFrom position bytes = .error e) :
    position ≤ e.position := by
  obtain ⟨cs, rest, rfl, rfl | ⟨e', herror, hposition⟩⟩ := exists_encode_append position bytes
  · rw [List.append_nil, decodeFrom_encode] at h
    cases h
  · rw [decodeFrom_encode_append, herror] at h
    cases h
    omega

/-! ### Where bytes are wrong -/

/-- The first wrong sequence of some bytes stands at `n`: the bytes before it are those
of a text, and from there on stand bytes that do not begin with a character. -/
structure FirstInvalid (bytes : List UInt8) (n : Nat) : Prop where
  before : ∃ cs, bytes.take n = encode cs
  inside : n < bytes.length
  wrong : ∀ c, ¬ encodeChar c <+: bytes.drop n

theorem not_encodeChar_prefix (h : decodeFrom position bytes = .error e)
    (hposition : e.position = position) (c : Char) : ¬ encodeChar c <+: bytes := by
  rintro ⟨t, rfl⟩
  have hpos := length_encodeChar_pos c
  rw [decodeFrom_encodeChar_append] at h
  cases ht : decodeFrom (position + (encodeChar c).length) t with
  | ok cs =>
    rw [ht] at h
    cases h
  | error e' =>
    -- A rejection behind the character would be reported there.
    have hle := le_position_of_decodeFrom ht
    rw [ht] at h
    cases h
    omega

theorem decode_eq_ok_iff : decode bytes = .ok cs ↔ bytes = encode cs := by
  constructor
  · intro h
    obtain ⟨cs', rest, rfl, rfl | ⟨e, herror, -⟩⟩ := exists_encode_append 0 bytes
    · rw [List.append_nil, decode_encode] at h
      cases h
      simp
    · rw [decode, decodeFrom_encode_append, herror] at h
      cases h
  · rintro rfl
    exact decode_encode cs

/-- Bytes are rejected where they first are wrong, and only there. -/
theorem firstInvalid_iff :
    FirstInvalid bytes n ↔ ∃ e, decode bytes = .error e ∧ e.position = n := by
  constructor
  · rintro ⟨⟨cs, hbefore⟩, hinside, hwrong⟩
    have hlength : (encode cs).length = n := by
      rw [← hbefore, List.length_take, Nat.min_eq_left (Nat.le_of_lt hinside)]
    have hrest : bytes.drop n ≠ [] := by
      simpa using hinside
    rcases exists_encodeChar_append_or_error n hrest with ⟨c, t, hc⟩ | ⟨e, herror, hposition⟩
    · exact absurd ⟨t, hc.symm⟩ (hwrong c)
    · refine ⟨e, ?_, hposition⟩
      rw [decode, ← List.take_append_drop n bytes, hbefore, decodeFrom_encode_append, hlength,
        Nat.zero_add, herror]
      rfl
  · rintro ⟨e, h, rfl⟩
    obtain ⟨cs, rest, rfl, rfl | ⟨e', herror, hposition⟩⟩ := exists_encode_append 0 bytes
    · rw [List.append_nil, decode_encode] at h
      cases h
    · rw [decode, decodeFrom_encode_append, herror] at h
      cases h
      rw [Nat.zero_add] at hposition
      have hrest : rest ≠ [] := by
        rintro rfl
        cases herror
      refine ⟨⟨cs, ?_⟩, ?_, fun c => ?_⟩
      · rw [hposition, List.take_left]
      · rw [hposition, List.length_append]
        exact Nat.lt_add_of_pos_right (List.length_pos_of_ne_nil hrest)
      · rw [hposition, List.drop_left]
        exact not_encodeChar_prefix herror (by omega) c

/-- Bytes that are not those of a text are rejected where they first are wrong. -/
theorem exists_decode_eq_error (h : ∀ cs, bytes ≠ encode cs) :
    ∃ e, decode bytes = .error e ∧ ∀ n, FirstInvalid bytes n ↔ n = e.position := by
  cases hdecode : decode bytes with
  | ok cs => exact absurd (decode_eq_ok_iff.mp hdecode) (h cs)
  | error e =>
    refine ⟨e, rfl, fun n => ?_⟩
    rw [firstInvalid_iff, hdecode]
    simp [eq_comm]

end Delimited.Utf8
