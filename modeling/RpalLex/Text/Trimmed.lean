/-! # Trimmed text

  White space at either end of a value means nothing.  White space is what
  Unicode calls so, together with the four separators of ASCII (U+001C to
  U+001F).  Words are compared without regard to the case of ASCII letters. -/

namespace RpalLex.Text

/-- White space: the tab to the carriage return, the separators of ASCII and the space, and the
    white space of Unicode beyond ASCII. -/
def isWhiteSpace (c : Char) : Bool :=
  let n := c.toNat
  (0x09 ≤ n && n ≤ 0x0d) || (0x1c ≤ n && n ≤ 0x20) || n == 0x85 || n == 0xa0 || n == 0x1680
    || (0x2000 ≤ n && n ≤ 0x200a) || n == 0x2028 || n == 0x2029 || n == 0x202f || n == 0x205f
    || n == 0x3000

/-- The text without the white space at its two ends. -/
def trimmed (s : List Char) : List Char :=
  ((s.dropWhile isWhiteSpace).reverse.dropWhile isWhiteSpace).reverse

/-- The text trimmed and in lower case. -/
def bareWord (s : String) : String := String.ofList ((trimmed s.toList).map Char.toLower)

theorem isWhiteSpace_of_isWhitespace {c : Char} (h : c.isWhitespace = true) :
    isWhiteSpace c = true := by
  simp only [Char.isWhitespace, Bool.or_eq_true, decide_eq_true_eq] at h
  rcases h with ((rfl | rfl) | rfl) | rfl <;> decide

end RpalLex.Text
