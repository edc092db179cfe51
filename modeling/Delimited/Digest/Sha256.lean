/-!
# SHA-256

The digest identifies the bytes of a source file.

## Main definitions

* `Sha256.pad`: the bytes filled up to whole blocks.
* `Sha256.schedule`: the words of a block and those derived from them.
* `Sha256.compress`: the state after one more block.
* `Sha256.digest`: the digest of some bytes, in hexadecimal.
-/

namespace Delimited.Sha256

/-- The constants of the 64 rounds. -/
def constants : List UInt32 := [
  0x428A2F98, 0x71374491, 0xB5C0FBCF, 0xE9B5DBA5, 0x3956C25B, 0x59F111F1, 0x923F82A4, 0xAB1C5ED5,
  0xD807AA98, 0x12835B01, 0x243185BE, 0x550C7DC3, 0x72BE5D74, 0x80DEB1FE, 0x9BDC06A7, 0xC19BF174,
  0xE49B69C1, 0xEFBE4786, 0x0FC19DC6, 0x240CA1CC, 0x2DE92C6F, 0x4A7484AA, 0x5CB0A9DC, 0x76F988DA,
  0x983E5152, 0xA831C66D, 0xB00327C8, 0xBF597FC7, 0xC6E00BF3, 0xD5A79147, 0x06CA6351, 0x14292967,
  0x27B70A85, 0x2E1B2138, 0x4D2C6DFC, 0x53380D13, 0x650A7354, 0x766A0ABB, 0x81C2C92E, 0x92722C85,
  0xA2BFE8A1, 0xA81A664B, 0xC24B8B70, 0xC76C51A3, 0xD192E819, 0xD6990624, 0xF40E3585, 0x106AA070,
  0x19A4C116, 0x1E376C08, 0x2748774C, 0x34B0BCB5, 0x391C0CB3, 0x4ED8AA4A, 0x5B9CCA4F, 0x682E6FF3,
  0x748F82EE, 0x78A5636F, 0x84C87814, 0x8CC70208, 0x90BEFFFA, 0xA4506CEB, 0xBEF9A3F7, 0xC67178F2]

/-- The eight words of a state. -/
structure State where
  /-- The first word. -/
  a : UInt32
  /-- The second word. -/
  b : UInt32
  /-- The third word. -/
  c : UInt32
  /-- The fourth word. -/
  d : UInt32
  /-- The fifth word. -/
  e : UInt32
  /-- The sixth word. -/
  f : UInt32
  /-- The seventh word. -/
  g : UInt32
  /-- The eighth word. -/
  h : UInt32
  deriving DecidableEq, Repr

/-- The state before the first block. -/
def start : State :=
  ⟨0x6A09E667, 0xBB67AE85, 0x3C6EF372, 0xA54FF53A,
    0x510E527F, 0x9B05688C, 0x1F83D9AB, 0x5BE0CD19⟩

/-- A word turned to the right. -/
def rotate (x n : UInt32) : UInt32 := (x >>> n) ||| (x <<< (32 - n))

/-- The eight bytes of a number, the highest first. -/
def bytes64 (n : Nat) : List UInt8 :=
  (List.range 8).map fun i => (n / Nat.pow 256 (7 - i)).toUInt8

/-- The message, a one bit, zeros, and the length in bits, in whole blocks. -/
def pad (message : List UInt8) : List UInt8 :=
  let zeros := (64 - (message.length + 9) % 64) % 64
  message ++ 0x80 :: List.replicate zeros 0 ++ bytes64 (8 * message.length)

/-- The words of some bytes, four bytes each, the highest first. -/
def words : List UInt8 → List UInt32
  | w :: x :: y :: z :: rest =>
    (w.toUInt32 <<< 24 ||| x.toUInt32 <<< 16 ||| y.toUInt32 <<< 8 ||| z.toUInt32) :: words rest
  | _ => []

/-- A block's words followed by `n` derived ones, each from four earlier ones. -/
def extend (block : Array UInt32) : Nat → Array UInt32
  | 0 => block
  | n + 1 =>
    let w := extend block n
    let back := fun k => w.getD (w.size - k) 0
    let s₀ := rotate (back 15) 7 ^^^ rotate (back 15) 18 ^^^ (back 15 >>> 3)
    let s₁ := rotate (back 2) 17 ^^^ rotate (back 2) 19 ^^^ (back 2 >>> 10)
    w.push (back 16 + s₀ + back 7 + s₁)

/-- The 64 words of a block of sixteen. -/
def schedule (block : List UInt32) : List UInt32 := (extend block.toArray 48).toList

/-- The state after a round with a constant and a word. -/
def round (s : State) (constant word : UInt32) : State :=
  let s₁ := rotate s.e 6 ^^^ rotate s.e 11 ^^^ rotate s.e 25
  let choice := (s.e &&& s.f) ^^^ (~~~s.e &&& s.g)
  let t₁ := s.h + s₁ + choice + constant + word
  let s₀ := rotate s.a 2 ^^^ rotate s.a 13 ^^^ rotate s.a 22
  let majority := (s.a &&& s.b) ^^^ (s.a &&& s.c) ^^^ (s.b &&& s.c)
  ⟨t₁ + (s₀ + majority), s.a, s.b, s.c, s.d + t₁, s.e, s.f, s.g⟩

/-- The state after a block. -/
def compress (s : State) (block : List UInt32) : State :=
  let t := (constants.zip (schedule block)).foldl (fun t kw => round t kw.1 kw.2) s
  ⟨s.a + t.a, s.b + t.b, s.c + t.c, s.d + t.d, s.e + t.e, s.f + t.f, s.g + t.g, s.h + t.h⟩

/-- The state after `n` blocks of words. -/
def absorb (s : State) (ws : List UInt32) : Nat → State
  | 0 => s
  | n + 1 => absorb (compress s (ws.take 16)) (ws.drop 16) n

/-- A word in eight hexadecimal digits. -/
def wordText (w : UInt32) : List Char :=
  let digits := Nat.toDigits 16 w.toNat
  List.replicate (8 - digits.length) '0' ++ digits

/-- The digest of some bytes, in lower-case hexadecimal. -/
def digest (message : List UInt8) : String :=
  let ws := words (pad message)
  let s := absorb start ws (ws.length / 16)
  String.ofList ([s.a, s.b, s.c, s.d, s.e, s.f, s.g, s.h].flatMap wordText)

end Delimited.Sha256
