import Delimited.Text.Quoted

/-!
# What cannot be decoded or encoded

## Main definitions

* `DecodeReason`: what is wrong with some bytes.
* `DecodeError`: where bytes are wrong, and why.
* `EncodeError`: which characters have no bytes, and why.
-/

namespace Delimited

/-- What is wrong with some bytes. -/
inductive DecodeReason where
  /-- A byte that starts no character. -/
  | invalidStart
  /-- A byte that cannot follow those before it. -/
  | invalidContinuation
  /-- A character that the end of the bytes cuts off. -/
  | unexpectedEnd
  /-- A byte outside ASCII. -/
  | notAscii
  /-- A byte without a character in the code page. -/
  | undefined
  /-- Half a unit at the end of the bytes. -/
  | truncated
  /-- The second half of a pair without the first. -/
  | illegalUnit
  /-- The first half of a pair without the second. -/
  | illegalPair
  deriving DecidableEq, Repr

/-- The wording of a reason. -/
def DecodeReason.message : DecodeReason → String
  | invalidStart => "invalid start byte"
  | invalidContinuation => "invalid continuation byte"
  | unexpectedEnd => "unexpected end of data"
  | notAscii => "ordinal not in range(128)"
  | undefined => "character maps to <undefined>"
  | truncated => "truncated data"
  | illegalUnit => "illegal encoding"
  | illegalPair => "illegal UTF-16 surrogate"

/-- Where bytes cannot be decoded, and why. -/
structure DecodeError where
  /-- The position of the first wrong byte. -/
  position : Nat
  /-- The wrong bytes. -/
  bytes : List UInt8
  /-- What is wrong with them. -/
  reason : DecodeReason
  deriving DecidableEq, Repr

/-- A failure to decode bytes. -/
inductive DecodeFailure where
  /-- Some bytes are wrong. -/
  | wrong (e : DecodeError)
  /-- The bytes do not say in which order their units are. -/
  | noByteOrder
  deriving DecidableEq, Repr

/-- The wording of a decode error under the name of a codec. -/
def DecodeError.message (codec : String) (e : DecodeError) : String :=
  let place := match e.bytes with
    | [b] => s!"byte 0x" ++ String.ofList (Text.hex 2 b.toNat) ++ s!" in position {e.position}"
    | bs => s!"bytes in position {e.position}-{e.position + bs.length - 1}"
  "'" ++ codec ++ "' codec can't decode " ++ place ++ ": " ++ e.reason.message

/-- Which characters have no bytes. -/
structure EncodeError where
  /-- The name of the codec. -/
  codec : String
  /-- The position of the first of the characters. -/
  position : Nat
  /-- The characters, one after another in the text. -/
  chars : List Char
  /-- Why they have no bytes. -/
  reason : String
  deriving DecidableEq, Repr

/-- The wording of an encode error. -/
def EncodeError.message (e : EncodeError) : String :=
  let place := match e.chars with
    | [c] => "character '" ++ String.ofList (Text.escapeCode c.toNat) ++ s!"' in position {e.position}"
    | cs => s!"characters in position {e.position}-{e.position + cs.length - 1}"
  "'" ++ e.codec ++ "' codec can't encode " ++ place ++ ": " ++ e.reason

end Delimited
