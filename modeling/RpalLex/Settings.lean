import RpalLex.Text.Trimmed

/-! # Settings

  Two things can be chosen: the charset a program is decoded with, by its
  name, and whether the line feed that ends a comment is kept.  Both have a
  variable in the environment; a variable that is empty counts as absent. -/

namespace RpalLex

structure Settings where
  /-- The name of a charset. -/
  encoding : String := "utf-8"
  keepNewline : Bool := false
deriving DecidableEq, Repr

namespace Settings

def encodingVariable : String := "RPAL_SCANNER_ENCODING"

def keepNewlineVariable : String := "RPAL_SCANNER_KEEP_COMMENT_NEWLINE"

/-- The words that mean yes; every other word means no. -/
def yesWords : List String := ["1", "true", "yes", "on"]

/-- Does the value of a variable mean yes? -/
def meansYes (value : String) : Bool := yesWords.contains (Text.bareWord value)

/-- The settings of an environment, given as a look-up. -/
def ofEnvironment (env : String → Option String) : Settings where
  encoding :=
    match env encodingVariable with
    | none | some "" => "utf-8"
    | some value => value
  keepNewline :=
    match env keepNewlineVariable with
    | some value => meansYes value
    | none => false

theorem not_meansYes_empty : meansYes "" = false := by decide +kernel

end Settings

end RpalLex
