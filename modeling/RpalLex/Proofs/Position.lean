import Mathlib.Data.List.Induction
import RpalLex.Location

/-! # Positions in a text

  A cursor keeps its location by adding and subtracting one.  What these
  numbers ought to be is a matter of counting: a character stands in the line
  after as many line feeds as come before it, and in the column after as many
  characters as come before it on its line.

  * `Location.after` goes forward over a text, one character at a time.
  * `Location.behind` counts.

  Main statements: `start_after` (from the beginning of a file both give the
  same location), `eq_of_behind_eq` (different characters of a text have
  different locations) and `inFile_retreat_advance` (a character that was
  passed and taken back leaves the location as it was). -/

namespace RpalLex

namespace Location

/-! ## §1. Going forward -/

/-- The beginning of a file. -/
def start (filename : String) : Location := ⟨filename, 1, 1⟩

/-- Passes one character. -/
def advance (loc : Location) (c : Char) : Location :=
  if c = '\n' then { loc with line := loc.line + 1, column := 1 }
  else { loc with column := loc.column + 1 }

/-- Passes the characters of a text in turn. -/
def after (loc : Location) (cs : List Char) : Location := cs.foldl advance loc

@[simp] theorem after_nil (loc : Location) : loc.after [] = loc := rfl

@[simp] theorem after_cons (loc : Location) (c : Char) (cs : List Char) :
    loc.after (c :: cs) = (loc.advance c).after cs := rfl

theorem after_append (loc : Location) (cs ds : List Char) :
    loc.after (cs ++ ds) = (loc.after cs).after ds := List.foldl_append

/-! ## §2. Counting -/

/-- The location of the character that comes right behind `cs` in a file: one more than the line
    feeds in `cs`, and one more than the characters behind the last of them. -/
def behind (filename : String) (cs : List Char) : Location :=
  ⟨filename, 1 + cs.count '\n', 1 + (cs.reverse.takeWhile (· != '\n')).length⟩

/-- The location of the character with offset `k` in a text. -/
def ofOffset (filename : String) (text : List Char) (k : Nat) : Location :=
  behind filename (text.take k)

theorem behind_concat (filename : String) (cs : List Char) (c : Char) :
    behind filename (cs ++ [c]) = (behind filename cs).advance c := by
  by_cases h : c = '\n'
  · subst h
    simp [behind, advance, List.count_append, Int.add_assoc]
  · simp [behind, advance, h, List.count_append]
    omega

theorem start_after (filename : String) (cs : List Char) :
    (start filename).after cs = behind filename cs := by
  induction cs using List.reverseRecOn with
  | nil => rfl
  | append_singleton cs c ih => rw [after_append, ih, behind_concat]; rfl

/-- Going forward never goes back a line, and as long as the line is the same, every character
    counts in the column. -/
theorem line_column_after (loc : Location) (cs : List Char) :
    loc.line ≤ (loc.after cs).line ∧
      ((loc.after cs).line = loc.line → (loc.after cs).column = loc.column + cs.length) := by
  induction cs generalizing loc with
  | nil => simp
  | cons c cs ih =>
    obtain ⟨hline, hcolumn⟩ := ih (loc.advance c)
    rw [after_cons]
    by_cases h : c = '\n'
    · have hadvance : (loc.advance c).line = loc.line + 1 := by simp [advance, h]
      omega
    · have hsame : (loc.advance c).line = loc.line := by simp [advance, h]
      have hnext : (loc.advance c).column = loc.column + 1 := by simp [advance, h]
      simp only [List.length_cons, Int.natCast_add, Int.natCast_one]
      omega

/-- No two characters of a text have the same location. -/
theorem eq_of_behind_eq {filename : String} {cs ds : List Char} (hle : cs <+: ds)
    (h : behind filename cs = behind filename ds) : cs = ds := by
  obtain ⟨es, rfl⟩ := hle
  rw [← start_after, ← start_after, after_append] at h
  -- The line is the same, so every character of `es` would count in the column.
  have hcolumn := (line_column_after ((start filename).after cs) es).2 (by rw [← h])
  rw [← h] at hcolumn
  have hnil : es = [] := List.length_eq_zero_iff.1 (by omega)
  rw [hnil, List.append_nil]

theorem ofOffset_append (filename : String) (cs ds : List Char) :
    ofOffset filename (cs ++ ds) cs.length = (start filename).after cs := by
  simp [ofOffset, start_after]

end Location

/-! ## §3. Places -/

namespace Place

theorem inFile_advance (p : Place) (c : Char) (filename : String) :
    (p.advance c).inFile filename = (p.inFile filename).advance c := by
  by_cases h : c = '\n' <;> simp [advance, Location.advance, inFile, h]

theorem inFile_advanceAll (p : Place) (cs : List Char) (filename : String) :
    (p.advanceAll cs).inFile filename = (p.inFile filename).after cs := by
  induction cs generalizing p with
  | nil => rfl
  | cons c cs ih => rw [advanceAll_cons, ih, inFile_advance, Location.after_cons]

theorem inFile_retreat_advance (p : Place) (c : Char) (filename : String) :
    ((p.advance c).retreat c).inFile filename = p.inFile filename := by
  obtain ⟨hline, hcolumn⟩ := retreat_advance p c
  simp [inFile, hline, hcolumn]

end Place

end RpalLex
