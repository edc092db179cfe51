import Delimited.Encoding.Error

/-!
# UTF-8

## Main definitions

* `Utf8.encodeChar`, `Utf8.encode`: the bytes of a character and of a text.
* `Utf8.decode`: the text of some bytes, or the first sequence that is wrong.
* `Utf8.mark`: the bytes of the byte order mark.
-/

namespace Delimited.Utf8

/-- The bytes of the byte order mark. -/
def mark : List UInt8 := [0xEF, 0xBB, 0xBF]

/-- The bytes of a character. -/
def encodeChar (c : Char) : List UInt8 :=
  let n := c.toNat
  if n < 0x80 then [n.toUInt8]
  else if n < 0x800 then [(0xC0 + n / 64).toUInt8, (0x80 + n % 64).toUInt8]
  else if n < 0x10000 then
    [(0xE0 + n / 4096).toUInt8, (0x80 + n / 64 % 64).toUInt8, (0x80 + n % 64).toUInt8]
  else
    [(0xF0 + n / 262144).toUInt8, (0x80 + n / 4096 % 64).toUInt8, (0x80 + n / 64 % 64).toUInt8,
      (0x80 + n % 64).toUInt8]

/-- The bytes of a list of characters. -/
def encode (cs : List Char) : List UInt8 := cs.flatMap encodeChar

/-- Whether a byte continues a character. -/
def continues (b : UInt8) : Bool := decide (0x80 ≤ b.toNat ∧ b.toNat ≤ 0xBF)

/-- Whether a second byte can follow a first one, so that the character is not
written too long, is no surrogate and is not too large. -/
def follows (first second : UInt8) : Bool :=
  continues second &&
    match first.toNat with
    | 0xE0 => decide (0xA0 ≤ second.toNat)
    | 0xED => decide (second.toNat ≤ 0x9F)
    | 0xF0 => decide (0x90 ≤ second.toNat)
    | 0xF4 => decide (second.toNat ≤ 0x8F)
    | _ => true

/-- The six bits that a continuing byte adds to a number. -/
def extend (n : Nat) (b : UInt8) : Nat := n * 64 + b.toNat % 64

/-- The characters of some bytes, of which the first stands at a position. -/
def decodeFrom (position : Nat) : List UInt8 → Except DecodeError (List Char)
  | [] => .ok []
  | b₀ :: t₀ =>
    if b₀.toNat < 0x80 then
      (decodeFrom (position + 1) t₀).map (Char.ofNat b₀.toNat :: ·)
    else if b₀.toNat < 0xC2 ∨ 0xF4 < b₀.toNat then .error ⟨position, [b₀], .invalidStart⟩
    else match t₀ with
      | [] => .error ⟨position, [b₀], .unexpectedEnd⟩
      | b₁ :: t₁ =>
        if !follows b₀ b₁ then .error ⟨position, [b₀], .invalidContinuation⟩
        else if b₀.toNat < 0xE0 then
          (decodeFrom (position + 2) t₁).map (Char.ofNat (extend (b₀.toNat - 0xC0) b₁) :: ·)
        else match t₁ with
          | [] => .error ⟨position, [b₀, b₁], .unexpectedEnd⟩
          | b₂ :: t₂ =>
            if !continues b₂ then .error ⟨position, [b₀, b₁], .invalidContinuation⟩
            else if b₀.toNat < 0xF0 then
              (decodeFrom (position + 3) t₂).map
                (Char.ofNat (extend (extend (b₀.toNat - 0xE0) b₁) b₂) :: ·)
            else match t₂ with
              | [] => .error ⟨position, [b₀, b₁, b₂], .unexpectedEnd⟩
              | b₃ :: t₃ =>
                if !continues b₃ then .error ⟨position, [b₀, b₁, b₂], .invalidContinuation⟩
                else (decodeFrom (position + 4) t₃).map
                  (Char.ofNat (extend (extend (extend (b₀.toNat - 0xF0) b₁) b₂) b₃) :: ·)

/-- The characters of some bytes. -/
def decode (bytes : List UInt8) : Except DecodeError (List Char) := decodeFrom 0 bytes

/-- The characters of some bytes after a byte order mark, if there is one.
Positions count from after the mark, and a mark that is cut short is no text. -/
def decodeMarked (bytes : List UInt8) : Except DecodeError (List Char) :=
  if mark.isPrefixOf bytes then decode (bytes.drop 3)
  else if bytes.isPrefixOf mark then .ok []
  else decode bytes

end Delimited.Utf8
