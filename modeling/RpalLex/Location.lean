import RpalLex.Text.Numeral

/-! # Locations

  A *location* names a character of a program: the file it is in, its line
  and its column, both counted from one.  A *place* is what a reader keeps
  while it goes forward: the line and the column of the next character, and
  the column of the line feed it passed last, so that one line feed can be
  taken back.  Characters may be taken back that were never read, so both
  numbers are integers.

  Main statements: `retreat_advance` (stepping back over the character just
  passed restores line and column) and `advance_retreat_advance` (going
  forward again restores the place entirely). -/

namespace RpalLex

/-! ## §1. Locations -/

/-- A character of a program. -/
structure Location where
  filename : String
  line : Int
  column : Int
deriving DecidableEq, Repr

/-- The file, the line and the column with colons between them. -/
def Location.text (loc : Location) : String :=
  loc.filename ++ ":" ++ Text.decimal loc.line ++ ":" ++ Text.decimal loc.column

/-! ## §2. Places -/

/-- Where the next character stands. -/
structure Place where
  line : Int
  column : Int
  /-- The column of the line feed that was passed last. -/
  lineEnd : Int
deriving DecidableEq, Repr

namespace Place

/-- The beginning of a program. -/
def start : Place := ⟨1, 1, 1⟩

/-- Passes one character. -/
def advance (p : Place) (c : Char) : Place :=
  if c = '\n' then ⟨p.line + 1, 1, p.column⟩ else { p with column := p.column + 1 }

/-- Takes one character back. -/
def retreat (p : Place) (c : Char) : Place :=
  if c = '\n' then { p with line := p.line - 1, column := p.lineEnd }
  else { p with column := p.column - 1 }

/-- Passes the characters of a text in turn. -/
def advanceAll (p : Place) (cs : List Char) : Place := cs.foldl advance p

/-- The place as a location in a file. -/
def inFile (p : Place) (filename : String) : Location := ⟨filename, p.line, p.column⟩

@[simp] theorem advanceAll_nil (p : Place) : p.advanceAll [] = p := rfl

@[simp] theorem advanceAll_cons (p : Place) (c : Char) (cs : List Char) :
    p.advanceAll (c :: cs) = (p.advance c).advanceAll cs := rfl

theorem advanceAll_append (p : Place) (cs ds : List Char) :
    p.advanceAll (cs ++ ds) = (p.advanceAll cs).advanceAll ds := List.foldl_append

theorem retreat_advance (p : Place) (c : Char) :
    ((p.advance c).retreat c).line = p.line ∧ ((p.advance c).retreat c).column = p.column := by
  by_cases h : c = '\n' <;> simp [advance, retreat, h]

theorem advance_retreat_advance (p : Place) (c : Char) :
    ((p.advance c).retreat c).advance c = p.advance c := by
  by_cases h : c = '\n' <;> simp [advance, retreat, h]

end Place

end RpalLex
