import RpalLex.Charset.Undecodable

/-! # UTF-16

  A character is one unit of two bytes, or two units, the first from the
  high and the second from the low surrogates.  The order of the two bytes
  is part of the charset, or is told by the byte order mark at the beginning
  of the text. -/

namespace RpalLex.Charset.Utf16

/-- The order of the bytes of a unit. -/
inductive ByteOrder where
  | little
  | big
deriving DecidableEq, Repr

namespace ByteOrder

def codec : ByteOrder → String
  | little => "utf-16-le"
  | big => "utf-16-be"

/-- The unit that two bytes make. -/
def unit : ByteOrder → UInt8 → UInt8 → Nat
  | little, a, b => a.toNat + 256 * b.toNat
  | big, a, b => 256 * a.toNat + b.toNat

/-- The order that a byte order mark tells. -/
def ofMark? : List UInt8 → Option ByteOrder
  | 0xff :: 0xfe :: _ => some little
  | 0xfe :: 0xff :: _ => some big
  | _ => none

end ByteOrder

def isHigh (u : Nat) : Bool := 0xd800 ≤ u && u ≤ 0xdbff

def isLow (u : Nat) : Bool := 0xdc00 ≤ u && u ≤ 0xdfff

/-- The character of a high and a low surrogate. -/
def pair (high low : Nat) : Char := Char.ofNat (0x10000 + (high - 0xd800) * 0x400 + (low - 0xdc00))

/-- Takes the bytes of a block, from a position.  `chars` are the characters so far, newest
    first.  At the end of the last block an unfinished character is at fault; before that it is
    handed back. -/
def run (order : ByteOrder) (isLast : Bool) (position : Nat) (chars : List Char) :
    List UInt8 → Decoded
  | [] => .ok (chars.reverse, [])
  | [a] =>
    if isLast then .error ⟨order.codec, a, position, 1, "truncated data"⟩
    else .ok (chars.reverse, [a])
  | a :: b :: bytes =>
    let u := order.unit a b
    if isLow u then .error ⟨order.codec, a, position, 2, "illegal encoding"⟩
    else if isHigh u then
      match bytes with
      | c :: d :: bytes' =>
        let v := order.unit c d
        if isLow v then run order isLast (position + 4) (pair u v :: chars) bytes'
        else .error ⟨order.codec, a, position, 2, "illegal UTF-16 surrogate"⟩
      | rest =>
        if isLast then
          .error ⟨order.codec, a, position, rest.length + 2, "unexpected end of data"⟩
        else .ok (chars.reverse, a :: b :: rest)
    else run order isLast (position + 2) (Char.ofNat u :: chars) bytes

/-- Decodes a block whose first `passed` bytes were a byte order mark. -/
def decode (order : ByteOrder) (isLast : Bool) (passed : Nat) (bytes : List UInt8) : Decoded :=
  run order isLast passed [] bytes

end RpalLex.Charset.Utf16
