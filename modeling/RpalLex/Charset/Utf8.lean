import RpalLex.Charset.Undecodable

/-! # UTF-8

  A character takes one to four bytes.  The first byte tells how many
  follow, and for some first bytes the second one is restricted, so that no
  character has two forms, no surrogate is encoded and no code point lies
  above U+10FFFF.

  The decoder is a machine that takes one byte at a time.  Its state is the
  *sequence* that has begun, with what is known of the code point, how many
  bytes it still needs, and the range the next one has to be in.

  A byte that cannot start a character is at fault by itself; where a byte
  cannot continue a sequence, the sequence before it is at fault; and at the
  end of the text an unfinished sequence is.  At the end of a block that is
  not the last an unfinished sequence is handed back.  Two bytes that would
  begin a surrogate count as unfinished there, and are at fault in the next
  block, whatever follows. -/

namespace RpalLex.Charset.Utf8

/-! ## §1. One byte at a time -/

/-- A character whose bytes have begun. -/
structure Sequence where
  /-- The bytes so far, in order. -/
  bytes : List UInt8
  /-- The bits of the code point so far. -/
  code : Nat
  /-- How many bytes are still to come. -/
  needed : Nat
  /-- The least and the greatest value of the next byte. -/
  low : UInt8
  high : UInt8
deriving DecidableEq, Repr

/-- The sequence that a byte begins, unless it is a character by itself or begins none. -/
def Sequence.begin? (b : UInt8) : Option Sequence :=
  if 0xc2 ≤ b ∧ b ≤ 0xdf then some ⟨[b], b.toNat - 0xc0, 1, 0x80, 0xbf⟩
  else if 0xe0 ≤ b ∧ b ≤ 0xef then
    some ⟨[b], b.toNat - 0xe0, 2, if b = 0xe0 then 0xa0 else 0x80, if b = 0xed then 0x9f else 0xbf⟩
  else if 0xf0 ≤ b ∧ b ≤ 0xf4 then
    some ⟨[b], b.toNat - 0xf0, 3, if b = 0xf0 then 0x90 else 0x80, if b = 0xf4 then 0x8f else 0xbf⟩
  else none

/-- What a byte does. -/
inductive Step where
  /-- It completes a character. -/
  | char (c : Char)
  /-- It begins or continues a sequence. -/
  | sequence (s : Sequence)
  /-- It cannot stand there. -/
  | refused
deriving DecidableEq, Repr

/-- One byte, between characters or in a sequence. -/
def step (state : Option Sequence) (b : UInt8) : Step :=
  match state with
  | none =>
    if b < 0x80 then .char (Char.ofNat b.toNat)
    else match Sequence.begin? b with
      | some s => .sequence s
      | none => .refused
  | some s =>
    if s.low ≤ b ∧ b ≤ s.high then
      let code := s.code * 64 + (b.toNat - 0x80)
      if s.needed = 1 then .char (Char.ofNat code)
      else .sequence ⟨s.bytes ++ [b], code, s.needed - 1, 0x80, 0xbf⟩
    else .refused

/-! ## §2. Blocks -/

/-- The run that is at fault when `b`, at `position`, is refused. -/
def refusal (state : Option Sequence) (b : UInt8) (position : Nat) : Undecodable :=
  match state with
  | none => ⟨"utf-8", b, position, 1, "invalid start byte"⟩
  | some s =>
    ⟨"utf-8", s.bytes.headD b, position - s.bytes.length, s.bytes.length,
      "invalid continuation byte"⟩

/-- The bytes of a sequence that has begun. -/
def begun (state : Option Sequence) : List UInt8 := (state.map Sequence.bytes).getD []

/-- Would the byte go on with the encoding of a surrogate? -/
def beginsSurrogate (state : Option Sequence) (b : UInt8) : Bool :=
  begun state == [0xed] && 0xa0 ≤ b && b ≤ 0xbf

/-- Takes the bytes of a block, from a position and a state.  `chars` are the characters so far,
    newest first. -/
def run (isLast : Bool) (position : Nat) (state : Option Sequence) (chars : List Char) :
    List UInt8 → Decoded
  | [] => .ok (chars.reverse, begun state)
  | b :: bytes =>
    match step state b with
    | .char c => run isLast (position + 1) none (c :: chars) bytes
    | .sequence s => run isLast (position + 1) (some s) chars bytes
    | .refused =>
      if !isLast && bytes.isEmpty && beginsSurrogate state b then
        .ok (chars.reverse, begun state ++ [b])
      else .error (refusal state b position)

/-- Decodes a block.  Bytes left over at the end of the last block are at fault. -/
def decode (isLast : Bool) (bytes : List UInt8) : Decoded :=
  match run isLast 0 none [] bytes with
  | .ok (chars, b :: rest) =>
    if isLast then
      .error ⟨"utf-8", b, bytes.length - (rest.length + 1), rest.length + 1,
        "unexpected end of data"⟩
    else .ok (chars, b :: rest)
  | r => r

end RpalLex.Charset.Utf8
