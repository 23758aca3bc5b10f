import RpalLex.Alphabet
import RpalLex.Location

/-! # Tokens

  A token is a stretch of a program with its kind and the location of its
  first character.  White space and comments are tokens like any other;
  they are *discardable*, which means that a parser never looks at them, and
  *screening* a list of tokens leaves them out.

  The value of a string literal is what stands between its quotes, escapes
  untouched, so the text of every token is known from its kind and its
  value, and *rendering* a list of tokens puts the program together again.

  Main statement: `render_append`. -/

namespace RpalLex

/-! ## §1. Kinds -/

/-- The kinds of tokens. -/
inductive Token.Kind where
  /-- A letter, then letters, digits and underscores. -/
  | identifier
  /-- An identifier with a fixed meaning. -/
  | reserved
  /-- A row of digits. -/
  | integer
  /-- What stands between two quotes. -/
  | string
  /-- A row of operator symbols. -/
  | operator
  /-- A row of blanks. -/
  | whitespace
  /-- Two slashes and the rest of their line. -/
  | comment
  | leftParen
  | rightParen
  | semicolon
  | comma
deriving DecidableEq, Repr

namespace Token.Kind

/-- The kinds in their usual order, which numbers them from one. -/
def all : List Kind :=
  [identifier, reserved, integer, string, operator, whitespace, comment, leftParen, rightParen,
   semicolon, comma]

def name : Kind → String
  | identifier => "IDENTIFIER"
  | reserved => "RESERVED"
  | integer => "INTEGER"
  | string => "STRING"
  | operator => "OPERATOR"
  | whitespace => "WHITESPACE"
  | comment => "COMMENT"
  | leftParen => "L_PAREN"
  | rightParen => "R_PAREN"
  | semicolon => "SEMICOLON"
  | comma => "COMMA"

/-- The kind whose name is `s`, if there is one. -/
def ofName? (s : String) : Option Kind := all.find? (·.name == s)

/-- The kind of a punctuation mark. -/
def ofMark? : Char → Option Kind
  | '(' => some leftParen
  | ')' => some rightParen
  | ';' => some semicolon
  | ',' => some comma
  | _ => none

/-- White space and comments are for people, not for parsers. -/
def isDiscardable : Kind → Bool
  | whitespace | comment => true
  | _ => false

theorem isSome_ofMark? (c : Char) : (ofMark? c).isSome = Alphabet.isPunctuation c := by
  unfold ofMark?
  split
  · rfl
  · rfl
  · rfl
  · rfl
  · next h1 h2 h3 h4 => simp_all [Alphabet.isPunctuation, Alphabet.punctuationMarks]

end Token.Kind

/-! ## §2. Tokens -/

/-- A stretch of a program. -/
structure Token where
  kind : Token.Kind
  value : String
  /-- The location of the first character. -/
  start : Location
deriving DecidableEq, Repr

namespace Token

/-- The words that are never identifiers. -/
def reservedWords : List String :=
  ["let", "in", "within", "fn", "where", "aug", "rec", "and",
   "or", "not", "gr", "ge", "ls", "le", "eq", "ne",
   "true", "false", "nil", "dummy"]

def isReserved (word : String) : Bool := reservedWords.contains word

/-- A word is reserved or an identifier. -/
def ofWord (word : String) (start : Location) : Token :=
  ⟨if isReserved word then .reserved else .identifier, word, start⟩

def isDiscardable (t : Token) : Bool := t.kind.isDiscardable

/-- The token as it stands in the program. -/
def text (t : Token) : String :=
  match t.kind with
  | .string => String.singleton Alphabet.quote ++ t.value ++ String.singleton Alphabet.quote
  | _ => t.value

/-! ## §3. Lists of tokens -/

/-- The tokens a parser looks at. -/
def screen (ts : List Token) : List Token := ts.filter fun t => !t.isDiscardable

/-- The texts of the tokens, one after another. -/
def render (ts : List Token) : String := String.ofList (ts.flatMap fun t => t.text.toList)

@[simp] theorem toList_render (ts : List Token) :
    (render ts).toList = ts.flatMap fun t => t.text.toList := by simp [render]

theorem render_append (ts us : List Token) : render (ts ++ us) = render ts ++ render us := by
  simp [render, String.ofList_append]

end Token

end RpalLex
