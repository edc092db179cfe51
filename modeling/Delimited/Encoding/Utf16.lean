import Delimited.Encoding.Error

/-!
# UTF-16

Characters are written as units of two bytes, the larger ones as a pair of
units. The units are stored with either byte first.

## Main definitions

* `Utf16.encode`: the bytes of a text.
* `Utf16.decode`: the text of some bytes, or the first unit that is wrong.
-/

namespace Delimited.Utf16

/-- The order of the two bytes of a unit. -/
inductive Order where
  /-- The low byte first. -/
  | little
  /-- The high byte first. -/
  | big
  deriving DecidableEq, Repr

/-- The bytes of a unit. -/
def Order.split (o : Order) (unit : Nat) : List UInt8 :=
  match o with
  | little => [(unit % 256).toUInt8, (unit / 256).toUInt8]
  | big => [(unit / 256).toUInt8, (unit % 256).toUInt8]

/-- The unit of two bytes. -/
def Order.join (o : Order) (x y : UInt8) : Nat :=
  match o with
  | little => x.toNat + 256 * y.toNat
  | big => 256 * x.toNat + y.toNat

/-- The units of a character. -/
def units (c : Char) : List Nat :=
  let n := c.toNat
  if n < 0x10000 then [n]
  else [0xD800 + (n - 0x10000) / 0x400, 0xDC00 + (n - 0x10000) % 0x400]

/-- The bytes of a list of characters. -/
def encode (o : Order) (cs : List Char) : List UInt8 :=
  cs.flatMap fun c => (units c).flatMap o.split

/-- Whether a unit is the first half of a pair. -/
def isHigh (unit : Nat) : Bool := decide (0xD800 ≤ unit ∧ unit < 0xDC00)

/-- Whether a unit is the second half of a pair. -/
def isLow (unit : Nat) : Bool := decide (0xDC00 ≤ unit ∧ unit < 0xE000)

/-- The character of a pair of units. -/
def ofPair (high low : Nat) : Char :=
  Char.ofNat (0x10000 + (high - 0xD800) * 0x400 + (low - 0xDC00))

/-- The characters of some bytes, of which the first stands at a position. -/
def decodeFrom (o : Order) (position : Nat) : List UInt8 → Except DecodeError (List Char)
  | [] => .ok []
  | [x] => .error ⟨position, [x], .truncated⟩
  | x₀ :: y₀ :: t₀ =>
    let first := o.join x₀ y₀
    if isLow first then .error ⟨position, [x₀, y₀], .illegalUnit⟩
    else if isHigh first then
      match t₀ with
      | x₁ :: y₁ :: t₁ =>
        let second := o.join x₁ y₁
        if isLow second then
          (decodeFrom o (position + 4) t₁).map (ofPair first second :: ·)
        else .error ⟨position, [x₀, y₀], .illegalPair⟩
      | _ => .error ⟨position, x₀ :: y₀ :: t₀, .unexpectedEnd⟩
    else (decodeFrom o (position + 2) t₀).map (Char.ofNat first :: ·)

/-- The characters of some bytes in a known order. -/
def decode (o : Order) (bytes : List UInt8) : Except DecodeError (List Char) :=
  decodeFrom o 0 bytes

/-- The characters of some bytes after a mark that tells their order. -/
def decodeMarked : List UInt8 → Except DecodeFailure (List Char)
  | 0xFF :: 0xFE :: t => (decodeFrom .little 2 t).mapError .wrong
  | 0xFE :: 0xFF :: t => (decodeFrom .big 2 t).mapError .wrong
  | [] => .ok []
  | bytes =>
    match decode .little bytes with
    | .ok _ => .error .noByteOrder
    | .error e => .error (.wrong e)

end Delimited.Utf16
