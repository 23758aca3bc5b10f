import RpalLex.Text.Numeral
import RpalLex.Text.Printable

/-! # Quoted text

  A quoted text stands between two quotation marks on one line and shows
  every character of the text without ambiguity:

  * the mark is `'`, or `"` where the text holds a `'` and no `"`;
  * the backslash and the mark in use have a backslash in front;
  * line feed, carriage return and tab are written `\n`, `\r`, `\t`;
  * any other character that is not printable is written by its code point,
    with two, four or eight hexadecimal digits after `\x`, `\u` or `\U`;
  * all else stands for itself. -/

namespace RpalLex.Text

/-- The quotation mark that needs the fewest escapes. -/
def quotationMark (s : List Char) : Char :=
  if s.contains '\'' && !s.contains '"' then '"' else '\''

/-- A code point after a backslash, in the shortest of the three widths. -/
def codePoint (n : Nat) : List Char :=
  if n < 0x100 then '\\' :: 'x' :: hexDigits 2 n
  else if n < 0x10000 then '\\' :: 'u' :: hexDigits 4 n
  else '\\' :: 'U' :: hexDigits 8 n

/-- One character between two `mark`s. -/
def escaped (mark c : Char) : List Char :=
  if c = mark ∨ c = '\\' then ['\\', c]
  else if c = '\n' then ['\\', 'n']
  else if c = '\r' then ['\\', 'r']
  else if c = '\t' then ['\\', 't']
  else if isPrintable c then [c]
  else codePoint c.toNat

/-- A text between quotation marks, as a list of characters. -/
def quotedChars (s : List Char) : List Char :=
  let mark := quotationMark s
  mark :: s.flatMap (escaped mark) ++ [mark]

/-- A text between quotation marks. -/
def quoted (s : String) : String := String.ofList (quotedChars s.toList)

/-- A character between quotation marks. -/
def quotedChar (c : Char) : String := String.ofList (quotedChars [c])

@[simp] theorem toList_quoted (s : String) : (quoted s).toList = quotedChars s.toList := by
  simp [quoted]

@[simp] theorem toList_quotedChar (c : Char) : (quotedChar c).toList = quotedChars [c] := by
  simp [quotedChar]

end RpalLex.Text
