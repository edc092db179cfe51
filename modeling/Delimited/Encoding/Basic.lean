import Delimited.Encoding.SingleByte
import Delimited.Encoding.Utf16
import Delimited.Encoding.Utf8

/-!
# Text encodings

Nine encodings are known, some of them by several names. Any other name is one of no
encoding, so that nothing is said of the sources that have an encoding by that name.

## Main definitions

* `Encoding`: the known encodings.
* `Encoding.ofName?`: the encoding with a name.
* `Encoding.decode`, `Encoding.encode`: between bytes and text.
-/

namespace Delimited

/-- The known encodings. -/
inductive Encoding where
  /-- UTF-8. -/
  | utf8
  /-- UTF-8 after a byte order mark. -/
  | utf8Marked
  /-- ASCII. -/
  | ascii
  /-- The first 256 characters, each in one byte. -/
  | latin1
  /-- The code page for Central Europe. -/
  | centralEurope
  /-- The code page for Western Europe. -/
  | westernEurope
  /-- UTF-16 after a byte order mark. -/
  | utf16Marked
  /-- UTF-16 in a known order. -/
  | utf16 (order : Utf16.Order)
  deriving DecidableEq, Repr

namespace Encoding

/-- A name in lower case and with hyphens. -/
def plainName (name : String) : String :=
  String.ofList (name.toList.map fun c => if c = '_' ∨ c = ' ' then '-' else c.toLower)

/-- The names of the encodings. -/
def names : List (String × Encoding) := [
  ("utf-8", utf8), ("utf8", utf8), ("u8", utf8), ("cp65001", utf8),
  ("utf-8-sig", utf8Marked), ("utf8-sig", utf8Marked),
  ("ascii", ascii), ("us-ascii", ascii), ("646", ascii),
  ("latin-1", latin1), ("latin1", latin1), ("latin", latin1), ("l1", latin1),
  ("iso-8859-1", latin1), ("iso8859-1", latin1), ("8859", latin1), ("cp819", latin1),
  ("cp1250", centralEurope), ("1250", centralEurope), ("windows-1250", centralEurope),
  ("cp1252", westernEurope), ("1252", westernEurope), ("windows-1252", westernEurope),
  ("utf-16", utf16Marked), ("utf16", utf16Marked), ("u16", utf16Marked),
  ("utf-16-le", utf16 .little), ("utf-16le", utf16 .little),
  ("utf-16-be", utf16 .big), ("utf-16be", utf16 .big)]

/-- The encoding with a name, in any case and with hyphens or underscores. -/
def ofName? (name : String) : Option Encoding :=
  (names.find? fun e => e.1 == plainName name).map Prod.snd

/-- The characters of bytes that each stand for one character. -/
def decodeBytes (char? : UInt8 → Option Char) (reason : DecodeReason) (position : Nat) :
    List UInt8 → Except DecodeError (List Char)
  | [] => .ok []
  | b :: bs =>
    match char? b with
    | some c => (decodeBytes char? reason (position + 1) bs).map (c :: ·)
    | none => .error ⟨position, [b], reason⟩

/-- The characters of some bytes. -/
def decodeChars (e : Encoding) (bytes : List UInt8) : Except DecodeFailure (List Char) :=
  match e with
  | utf8 => (Utf8.decode bytes).mapError .wrong
  | utf8Marked => (Utf8.decodeMarked bytes).mapError .wrong
  | ascii =>
    (decodeBytes (fun b => if b.toNat < 0x80 then some (Char.ofNat b.toNat) else none)
      .notAscii 0 bytes).mapError .wrong
  | latin1 => .ok (bytes.map fun b => Char.ofNat b.toNat)
  | centralEurope =>
    (decodeBytes (CodePage.decode CodePage.centralEurope) .undefined 0 bytes).mapError .wrong
  | westernEurope =>
    (decodeBytes (CodePage.decode CodePage.westernEurope) .undefined 0 bytes).mapError .wrong
  | utf16Marked => Utf16.decodeMarked bytes
  | utf16 o => (Utf16.decode o bytes).mapError .wrong

/-- The text of some bytes. -/
def decode (e : Encoding) (bytes : List UInt8) : Except DecodeFailure String :=
  (e.decodeChars bytes).map String.ofList

/-- The bytes of characters that each have one byte. All characters without a
byte that follow one another are reported together. -/
def encodeBytes (byte? : Char → Option UInt8) (codec reason : String) (position : Nat) :
    List Char → Except EncodeError (List UInt8)
  | [] => .ok []
  | c :: cs =>
    match byte? c with
    | some b => (encodeBytes byte? codec reason (position + 1) cs).map (b :: ·)
    | none => .error ⟨codec, position, c :: cs.takeWhile fun d => (byte? d).isNone, reason⟩

/-- The byte of a character below a bound. -/
def byteBelow (bound : Nat) (c : Char) : Option UInt8 :=
  if c.toNat < bound then some c.toNat.toUInt8 else none

/-- The bytes of a text. -/
def encode (e : Encoding) (s : String) : Except EncodeError (List UInt8) :=
  let cs := s.toList
  match e with
  | utf8 => .ok (Utf8.encode cs)
  | utf8Marked => .ok (Utf8.mark ++ Utf8.encode cs)
  | ascii => encodeBytes (byteBelow 128) "ascii" "ordinal not in range(128)" 0 cs
  | latin1 => encodeBytes (byteBelow 256) "latin-1" "ordinal not in range(256)" 0 cs
  | centralEurope =>
    encodeBytes (CodePage.encode CodePage.centralEurope) "charmap" "character maps to <undefined>" 0 cs
  | westernEurope =>
    encodeBytes (CodePage.encode CodePage.westernEurope) "charmap" "character maps to <undefined>" 0 cs
  | utf16Marked => .ok (0xFF :: 0xFE :: Utf16.encode .little cs)
  | utf16 o => .ok (Utf16.encode o cs)

end Encoding

end Delimited
