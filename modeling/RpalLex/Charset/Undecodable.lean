import RpalLex.Text.Numeral

/-! # Bytes that are no text

  A decoder that meets bytes it cannot decode reports the run of bytes that
  is at fault, by its first byte and its position in the block that is being
  decoded, and a reason. -/

namespace RpalLex.Charset

/-- A run of bytes that cannot be decoded. -/
structure Undecodable where
  /-- The name of the charset as decoders give it. -/
  codec : String
  firstByte : UInt8
  position : Nat
  /-- How many bytes the run has. -/
  length : Nat
  reason : String
deriving DecidableEq, Repr

/-- The text of the report: a run of one byte is shown by its byte, a longer one by its ends. -/
def Undecodable.text (u : Undecodable) : String :=
  "'" ++ u.codec ++ "' codec can't decode "
    ++ (if u.length = 1 then
        "byte 0x" ++ String.ofList (Text.hexDigits 2 u.firstByte.toNat) ++ " in position "
          ++ Text.decimal u.position
      else
        "bytes in position " ++ Text.decimal u.position ++ "-"
          ++ Text.decimal (u.position + u.length - 1 : Nat))
    ++ ": " ++ u.reason

/-- What a decoder makes of a block: the characters, and the bytes at its end that are the
    beginning of another one. -/
abbrev Decoded := Except Undecodable (List Char × List UInt8)

end RpalLex.Charset
