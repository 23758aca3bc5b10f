import RpalLex.Charset.Undecodable

/-! # Charsets of single bytes

  In these charsets every byte is a character by itself, or none at all.
  Nothing is ever left over at the end of a block. -/

namespace RpalLex.Charset.SingleByte

/-- A charset of single bytes: what each byte stands for, and how one that stands for nothing is
    reported. -/
structure Table where
  codec : String
  reason : String
  char? : UInt8 → Option Char

/-- The first half of the table only. -/
def ascii : Table where
  codec := "ascii"
  reason := "ordinal not in range(128)"
  char? b := if b < 0x80 then some (Char.ofNat b.toNat) else none

/-- Every byte is the code point of its character. -/
def latin1 : Table where
  codec := "latin-1"
  reason := "ordinal not in range(256)"
  char? b := some (Char.ofNat b.toNat)

/-- What Windows put in the place of the control characters from 0x80 to 0x9f.  Zero stands for
    no character. -/
def windowsExtras : List Nat :=
  [0x20ac, 0, 0x201a, 0x0192, 0x201e, 0x2026, 0x2020, 0x2021,
   0x02c6, 0x2030, 0x0160, 0x2039, 0x0152, 0, 0x017d, 0,
   0, 0x2018, 0x2019, 0x201c, 0x201d, 0x2022, 0x2013, 0x2014,
   0x02dc, 0x2122, 0x0161, 0x203a, 0x0153, 0, 0x017e, 0x0178]

/-- Latin 1 with the extra characters of Windows. -/
def windows1252 : Table where
  codec := "charmap"
  reason := "character maps to <undefined>"
  char? b :=
    if 0x80 ≤ b ∧ b ≤ 0x9f then
      match windowsExtras[b.toNat - 0x80]? with
      | some 0 => none
      | some n => some (Char.ofNat n)
      | none => none
    else some (Char.ofNat b.toNat)

/-- Takes the bytes of a block, from a position.  `chars` are the characters so far, newest
    first. -/
def Table.run (t : Table) (position : Nat) (chars : List Char) : List UInt8 → Decoded
  | [] => .ok (chars.reverse, [])
  | b :: bytes =>
    match t.char? b with
    | some c => t.run (position + 1) (c :: chars) bytes
    | none => .error ⟨t.codec, b, position, 1, t.reason⟩

/-- Decodes a block. -/
def Table.decode (t : Table) (bytes : List UInt8) : Decoded := t.run 0 [] bytes

end RpalLex.Charset.SingleByte
