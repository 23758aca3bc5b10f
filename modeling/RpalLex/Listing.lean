import RpalLex.Text.Quoted
import RpalLex.Token

/-! # Listings

  Three ways to show tokens to people and to programs:

  * as a *record*, `Token(KIND, 'value', line:column)`;
  * as a *line* of a table: the position, the kind and the quoted value in
    columns, with a space between columns however wide a field is;
  * as *data*: an array of objects with the kind, the value, the line and
    the column, laid out over lines with two spaces for each level. -/

namespace RpalLex.Listing

/-! ## §1. Records and lines -/

/-- Line and column with a colon between them. -/
def position (t : Token) : String :=
  Text.decimal t.start.line ++ ":" ++ Text.decimal t.start.column

/-- The token with its quoted value and its position. -/
def record (t : Token) : String :=
  "Token(" ++ t.kind.name ++ ", " ++ Text.quoted t.value ++ ", " ++ position t ++ ")"

/-- The token as a line of a table: eight characters for the position, eleven for the kind. -/
def line (t : Token) : String :=
  Text.padRight 8 (position t) ++ " " ++ Text.padRight 11 t.kind.name ++ " " ++ Text.quoted t.value

/-! ## §2. Data -/

/-- The units of 16 bits that stand for a character. -/
def units16 (c : Char) : List Nat :=
  let n := c.toNat
  if n < 0x10000 then [n] else [0xd800 + (n - 0x10000) / 0x400, 0xdc00 + (n - 0x10000) % 0x400]

/-- A character in a data string: visible ASCII stands for itself, and the double quote and the
    backslash have a backslash in front.  The five control characters that have a letter are
    written with it, and all else in units of 16 bits. -/
def dataChar (c : Char) : List Char :=
  if c = '"' then ['\\', '"']
  else if c = '\\' then ['\\', '\\']
  else if c = '\n' then ['\\', 'n']
  else if c = '\r' then ['\\', 'r']
  else if c = '\t' then ['\\', 't']
  else if c = '\x0c' then ['\\', 'f']
  else if c = '\x08' then ['\\', 'b']
  else if 0x20 ≤ c.toNat ∧ c.toNat ≤ 0x7e then [c]
  else (units16 c).flatMap fun u => '\\' :: 'u' :: Text.hexDigits 4 u

/-- A data string between its double quotes. -/
def dataString (s : String) : String :=
  String.ofList ('"' :: s.toList.flatMap dataChar ++ ['"'])

/-- A token as an object. -/
def object (t : Token) : String :=
  "  \x7b\n"
    ++ "    \"kind\": " ++ dataString t.kind.name ++ ",\n"
    ++ "    \"value\": " ++ dataString t.value ++ ",\n"
    ++ "    \"line\": " ++ Text.decimal t.start.line ++ ",\n"
    ++ "    \"column\": " ++ Text.decimal t.start.column ++ "\n"
    ++ "  \x7d"

/-- Tokens as an array of objects. -/
def array (ts : List Token) : String :=
  if ts.isEmpty then "[]" else "[\n" ++ ",\n".intercalate (ts.map object) ++ "\n]"

end RpalLex.Listing
