/-! # Numerals

  Integers are written in decimal, with a minus sign in front of negative
  ones; code points in hexadecimal, filled up with zeros on the left to a
  least width.  A field of a table is filled up with spaces on the right. -/

namespace RpalLex.Text

/-- The decimal digits of an integer, after its sign. -/
def decimalDigits : Int → List Char
  | .ofNat n => Nat.toDigits 10 n
  | .negSucc n => '-' :: Nat.toDigits 10 (n + 1)

/-- An integer in decimal. -/
def decimal (n : Int) : String := String.ofList (decimalDigits n)

/-- A number in lower-case hexadecimal with at least `width` digits. -/
def hexDigits (width n : Nat) : List Char := List.leftpad width '0' (Nat.toDigits 16 n)

/-- A number in upper-case hexadecimal with at least `width` digits. -/
def upperHex (width n : Nat) : String := String.ofList ((hexDigits width n).map Char.toUpper)

/-- Fills `s` up with spaces to at least `width` characters. -/
def padRight (width : Nat) (s : String) : String :=
  String.ofList (List.rightpad width ' ' s.toList)

@[simp] theorem toList_decimal (n : Int) : (decimal n).toList = decimalDigits n := by
  simp [decimal]

@[simp] theorem toList_padRight (width : Nat) (s : String) :
    (padRight width s).toList = List.rightpad width ' ' s.toList := by
  simp [padRight]

end RpalLex.Text
