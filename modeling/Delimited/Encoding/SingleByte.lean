/-!
# Code pages

A code page gives each byte a character. The first 128 bytes are the ASCII
characters, and the table lists the characters of the others, zero standing for
a byte without a character.

## Main definitions

* `CodePage.decode`, `CodePage.encode`: the character of a byte, and back.
* `CodePage.centralEurope`, `CodePage.westernEurope`: the two code pages.
-/

namespace Delimited.CodePage

/-- The characters of the bytes from 128 on, for Central European text. -/
def centralEurope : List Nat := [
  0x20AC, 0, 0x201A, 0, 0x201E, 0x2026, 0x2020, 0x2021,
  0, 0x2030, 0x160, 0x2039, 0x15A, 0x164, 0x17D, 0x179,
  0, 0x2018, 0x2019, 0x201C, 0x201D, 0x2022, 0x2013, 0x2014,
  0, 0x2122, 0x161, 0x203A, 0x15B, 0x165, 0x17E, 0x17A,
  0xA0, 0x2C7, 0x2D8, 0x141, 0xA4, 0x104, 0xA6, 0xA7,
  0xA8, 0xA9, 0x15E, 0xAB, 0xAC, 0xAD, 0xAE, 0x17B,
  0xB0, 0xB1, 0x2DB, 0x142, 0xB4, 0xB5, 0xB6, 0xB7,
  0xB8, 0x105, 0x15F, 0xBB, 0x13D, 0x2DD, 0x13E, 0x17C,
  0x154, 0xC1, 0xC2, 0x102, 0xC4, 0x139, 0x106, 0xC7,
  0x10C, 0xC9, 0x118, 0xCB, 0x11A, 0xCD, 0xCE, 0x10E,
  0x110, 0x143, 0x147, 0xD3, 0xD4, 0x150, 0xD6, 0xD7,
  0x158, 0x16E, 0xDA, 0x170, 0xDC, 0xDD, 0x162, 0xDF,
  0x155, 0xE1, 0xE2, 0x103, 0xE4, 0x13A, 0x107, 0xE7,
  0x10D, 0xE9, 0x119, 0xEB, 0x11B, 0xED, 0xEE, 0x10F,
  0x111, 0x144, 0x148, 0xF3, 0xF4, 0x151, 0xF6, 0xF7,
  0x159, 0x16F, 0xFA, 0x171, 0xFC, 0xFD, 0x163, 0x2D9]

/-- The characters of the bytes from 128 on, for Western European text. -/
def westernEurope : List Nat := [
  0x20AC, 0, 0x201A, 0x192, 0x201E, 0x2026, 0x2020, 0x2021,
  0x2C6, 0x2030, 0x160, 0x2039, 0x152, 0, 0x17D, 0,
  0, 0x2018, 0x2019, 0x201C, 0x201D, 0x2022, 0x2013, 0x2014,
  0x2DC, 0x2122, 0x161, 0x203A, 0x153, 0, 0x17E, 0x178,
  0xA0, 0xA1, 0xA2, 0xA3, 0xA4, 0xA5, 0xA6, 0xA7,
  0xA8, 0xA9, 0xAA, 0xAB, 0xAC, 0xAD, 0xAE, 0xAF,
  0xB0, 0xB1, 0xB2, 0xB3, 0xB4, 0xB5, 0xB6, 0xB7,
  0xB8, 0xB9, 0xBA, 0xBB, 0xBC, 0xBD, 0xBE, 0xBF,
  0xC0, 0xC1, 0xC2, 0xC3, 0xC4, 0xC5, 0xC6, 0xC7,
  0xC8, 0xC9, 0xCA, 0xCB, 0xCC, 0xCD, 0xCE, 0xCF,
  0xD0, 0xD1, 0xD2, 0xD3, 0xD4, 0xD5, 0xD6, 0xD7,
  0xD8, 0xD9, 0xDA, 0xDB, 0xDC, 0xDD, 0xDE, 0xDF,
  0xE0, 0xE1, 0xE2, 0xE3, 0xE4, 0xE5, 0xE6, 0xE7,
  0xE8, 0xE9, 0xEA, 0xEB, 0xEC, 0xED, 0xEE, 0xEF,
  0xF0, 0xF1, 0xF2, 0xF3, 0xF4, 0xF5, 0xF6, 0xF7,
  0xF8, 0xF9, 0xFA, 0xFB, 0xFC, 0xFD, 0xFE, 0xFF]

/-- The character of a byte, if it has one. -/
def decode (page : List Nat) (b : UInt8) : Option Char :=
  if b.toNat < 0x80 then some (Char.ofNat b.toNat)
  else match page[b.toNat - 0x80]? with
    | some n => if n = 0 then none else some (Char.ofNat n)
    | none => none

/-- The byte of a character, if it has one. -/
def encode (page : List Nat) (c : Char) : Option UInt8 :=
  if c.toNat < 0x80 then some c.toNat.toUInt8
  else (page.idxOf? c.toNat).map fun i => (i + 0x80).toUInt8

end Delimited.CodePage
