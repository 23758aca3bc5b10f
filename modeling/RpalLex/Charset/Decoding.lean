import RpalLex.Charset.Names
import RpalLex.Charset.SingleByte
import RpalLex.Charset.Utf8
import RpalLex.Stream

/-! # Decoding

  Bytes become text in blocks of 8192.  What is left over at the end of a
  block goes in front of the next one, and at the end of the file it is a
  block of its own.  A block is decoded as a whole: bytes that are no text
  anywhere in it are reported before any of its characters are delivered.

  A carriage return may be the first half of a line end.  At the end of a
  block it waits and is delivered with the next one, so the two halves are
  never seen apart; if the next block is no text, it is not delivered.

  A charset that starts with a byte order mark turns, once the mark was
  looked for, into one without.

  Main statements: `readsFrom_nil` and `readsFrom_of_ne_nil` (the reads of a file,
  block by block) and `withoutReturn_append` (what is delivered and what waits
  make up the text). -/

namespace RpalLex.Charset

/-! ## §1. One block -/

/-- The byte order mark of UTF-8. -/
def utf8Mark : List UInt8 := [0xef, 0xbb, 0xbf]

/-- A decoded block: its characters, the bytes left over, and the charset of what follows. -/
structure Block where
  chars : List Char
  rest : List UInt8
  charset : Charset
deriving DecidableEq, Repr

/-- A block that a decoder made, and the charset of what follows. -/
def Block.of (charset : Charset) : Decoded → Except Fault Block
  | .ok (chars, rest) => .ok ⟨chars, rest, charset⟩
  | .error u => .error ⟨.undecodable, u.text⟩

/-- UTF-8 at the beginning of a file.  As long as a byte order mark is possible and incomplete,
    all is left over. -/
def decodeUtf8Marked (isLast : Bool) (bytes : List UInt8) : Except Fault Block :=
  if bytes.length < 3 ∧ bytes <+: utf8Mark then .ok ⟨[], bytes, utf8Marked⟩
  else if utf8Mark <+: bytes then Block.of utf8 (Utf8.decode isLast (bytes.drop 3))
  else Block.of utf8 (Utf8.decode isLast bytes)

/-- UTF-16 at the beginning of a file, where there has to be a byte order mark. -/
def decodeUtf16Marked (isLast : Bool) (bytes : List UInt8) : Except Fault Block :=
  match Utf16.ByteOrder.ofMark? bytes with
  | some order => Block.of (utf16 order) (Utf16.decode order isLast 2 (bytes.drop 2))
  | none =>
    match Utf16.decode .little isLast 0 bytes with
    | .ok ([], rest) => .ok ⟨[], rest, utf16Marked⟩
    | .ok (_ :: _, _) => .error ⟨.missingByteOrderMark, "UTF-16 stream does not start with BOM"⟩
    | .error u => .error ⟨.undecodable, u.text⟩

/-- Decodes a block. -/
def decodeBlock (cs : Charset) (isLast : Bool) (bytes : List UInt8) : Except Fault Block :=
  match cs with
  | utf8 => Block.of utf8 (Utf8.decode isLast bytes)
  | utf8Marked => decodeUtf8Marked isLast bytes
  | ascii => Block.of ascii (SingleByte.ascii.decode bytes)
  | latin1 => Block.of latin1 (SingleByte.latin1.decode bytes)
  | windows1252 => Block.of windows1252 (SingleByte.windows1252.decode bytes)
  | utf16Marked => decodeUtf16Marked isLast bytes
  | utf16 order => Block.of (utf16 order) (Utf16.decode order isLast 0 bytes)

/-! ## §2. Files -/

/-- How many bytes of a file are decoded at a time. -/
def blockSize : Nat := 8192

/-- What of a decoded text is delivered at once: all but a carriage return at its end. -/
def withoutReturn (text : List Char) : List Char :=
  if text.getLast? = some '\r' then text.dropLast else text

/-- What of a decoded text waits: the carriage return at its end, if there is one. -/
def lastReturn (text : List Char) : List Char :=
  if text.getLast? = some '\r' then ['\r'] else []

/-- The reads that a file gives, from its remaining bytes and what the blocks before left over: the
    text that waits, and the bytes that begin a character. -/
def readsFrom (cs : Charset) (waiting : List Char) (carried bytes : List UInt8) : List Read :=
  match bytes with
  | [] =>
    match cs.decodeBlock true carried with
    | .ok block => (waiting ++ block.chars).map .char
    | .error f => [.fault f]
  | b :: bytes =>
    match cs.decodeBlock false (carried ++ (b :: bytes).take blockSize) with
    | .ok block =>
      let text := waiting ++ block.chars
      (withoutReturn text).map .char
        ++ readsFrom block.charset (lastReturn text) block.rest ((b :: bytes).drop blockSize)
    | .error f => [.fault f]
termination_by bytes.length
decreasing_by simp only [blockSize, List.length_drop, List.length_cons]; omega

/-- The reads that a file gives. -/
def reads (cs : Charset) (bytes : List UInt8) : List Read := cs.readsFrom [] [] bytes

theorem withoutReturn_append (text : List Char) : withoutReturn text ++ lastReturn text = text := by
  unfold withoutReturn lastReturn
  split
  · next h =>
    obtain ⟨rest, rfl⟩ := List.getLast?_eq_some_iff.1 h
    rw [List.dropLast_concat]
  · exact List.append_nil text

theorem readsFrom_nil (cs : Charset) (waiting : List Char) (carried : List UInt8) :
    cs.readsFrom waiting carried [] =
      match cs.decodeBlock true carried with
      | .ok block => (waiting ++ block.chars).map .char
      | .error f => [.fault f] := by
  rw [readsFrom]

theorem readsFrom_of_ne_nil (cs : Charset) (waiting : List Char) (carried : List UInt8)
    {bytes : List UInt8} (h : bytes ≠ []) :
    cs.readsFrom waiting carried bytes =
      match cs.decodeBlock false (carried ++ bytes.take blockSize) with
      | .ok block =>
        (withoutReturn (waiting ++ block.chars)).map .char
          ++ readsFrom block.charset (lastReturn (waiting ++ block.chars)) block.rest
            (bytes.drop blockSize)
      | .error f => [.fault f] := by
  cases bytes with
  | nil => exact absurd rfl h
  | cons b bytes => rw [readsFrom]

end RpalLex.Charset
