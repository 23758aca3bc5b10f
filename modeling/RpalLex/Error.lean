import RpalLex.Location
import RpalLex.Text.Quoted

/-! # What can go wrong

  Three layers of trouble are kept apart.

  * A *fault* comes from outside: the operating system, a decoder, a stream.
    It has a kind and a message.  Faults that mean that the data cannot be
    had end the reading for good; all others are interruptions that the
    reading survives.
  * A *lexical error* says that a text is not an RPAL program, or that it
    could not be read.  It may have a location and a hint, and it has one
    text that shows all of this.
  * A *problem* is whatever an operation of this library may fail with.

  Main statements: `text_eq_of_no_location` and `text_eq_of_location` (the
  text of an error without a hint is its location, if any, and its message). -/

namespace RpalLex

/-! ## §1. Faults -/

/-- The kinds of trouble from outside. -/
inductive FaultKind where
  /-- The data could not be transferred. -/
  | transfer
  | notFound
  | notPermitted
  | isDirectory
  | notDirectory
  /-- A value that makes no sense where it was used. -/
  | badValue
  /-- Bytes that are no text in the charset they are read in. -/
  | undecodable
  /-- A text without the byte order mark it must start with. -/
  | missingByteOrderMark
  /-- A name that stands for nothing. -/
  | unknownName
  /-- Trouble at run time of no other kind. -/
  | runtime
  /-- A value of the wrong type. -/
  | wrongType
  | arithmetic
deriving DecidableEq, Repr

namespace FaultKind

/-- Does a stream that fails like this deliver nothing more?  So it is for every failed transfer
    and for data that makes no sense. -/
def endsReading : FaultKind → Bool
  | transfer | notFound | notPermitted | isDirectory | notDirectory => true
  | badValue | undecodable | missingByteOrderMark => true
  | unknownName | runtime | wrongType | arithmetic => false

end FaultKind

/-- Trouble from outside. -/
structure Fault where
  kind : FaultKind
  message : String
deriving DecidableEq, Repr

/-! ## §2. Lexical errors -/

/-- What a text could not be read for. -/
inductive ReadCause where
  | fault (kind : FaultKind)
  /-- The reading had failed before. -/
  | earlierFailure
deriving DecidableEq, Repr

/-- Why a text is not a sequence of tokens. -/
inductive LexError where
  /-- An error that fits no other description. -/
  | general (message : String) (location : Option Location) (hint : Option String)
  /-- The text ends inside a string literal, which starts at the location. -/
  | unterminatedString (location : Option Location)
  /-- A character that cannot stand where it does: at the start of a token, or in the context. -/
  | invalidCharacter (char : Char) (location : Option Location) (context : Option String)
  /-- The text could not be opened or read. -/
  | unreadable (message : String) (location : Option Location) (hint : Option String)
      (cause : Option ReadCause)
deriving DecidableEq, Repr

/-- A text that is there and not empty. -/
def given? : Option String → Option String
  | some s => if s = "" then none else some s
  | none => none

namespace LexError

/-- A description of the error, without its location. -/
def message : LexError → String
  | general m _ _ => m
  | unterminatedString _ => "unterminated string literal"
  | invalidCharacter c _ context =>
    "invalid character " ++ Text.quotedChar c ++ " (U+" ++ Text.upperHex 4 c.toNat ++ ")"
      ++ match given? context with
        | some place => " in " ++ place
        | none => ""
  | unreadable m _ _ _ => m

/-- Where the error is. -/
def location : LexError → Option Location
  | general _ loc _ => loc
  | unterminatedString loc => loc
  | invalidCharacter _ loc _ => loc
  | unreadable _ loc _ _ => loc

/-- What could be done about it. -/
def hint : LexError → Option String
  | general _ _ h => h
  | unterminatedString _ => some "add a closing \"'\" to complete the string"
  | invalidCharacter _ _ _ => none
  | unreadable _ _ h _ => h

/-- The character that is wrong. -/
def char? : LexError → Option Char
  | invalidCharacter c _ _ => some c
  | _ => none

/-- Why the text could not be read. -/
def cause : LexError → Option ReadCause
  | unreadable _ _ _ cause => cause
  | _ => none

/-- The location if there is one, the message, and on a second line the hint if there is one. -/
def text (e : LexError) : String :=
  (match e.location with
    | some loc => loc.text ++ ": error: "
    | none => "error: ")
  ++ e.message
  ++ match given? e.hint with
    | some h => "\nhint: " ++ h
    | none => ""

/-- An invalid character given as a string, which has to be one character long. -/
def ofCharString (s : String) (location : Option Location) (context : Option String) :
    Except Fault LexError :=
  match s.toList with
  | [c] => .ok (invalidCharacter c location context)
  | cs => .error ⟨.wrongType,
      "ord() expected a character, but string of length " ++ Text.decimal cs.length ++ " found"⟩

theorem text_eq_of_no_location {e : LexError} (hl : e.location = none) (hh : e.hint = none) :
    e.text = "error: " ++ e.message := by
  simp [text, hl, hh, given?]

theorem text_eq_of_location {e : LexError} {loc : Location} (hl : e.location = some loc)
    (hh : e.hint = none) : e.text = loc.text ++ ": error: " ++ e.message := by
  simp [text, hl, hh, given?]

end LexError

/-! ## §3. Problems -/

/-- What an operation may fail with. -/
inductive Problem where
  | lexical (error : LexError)
  | fault (fault : Fault)
  /-- A character was given back while another one was waiting. -/
  | slotFull (held given : Char)
  /-- A punctuation mark was asked for, and the character is none. -/
  | notPunctuation (char : Char)
deriving DecidableEq, Repr

def Problem.text : Problem → String
  | lexical e => e.text
  | fault f => f.message
  | slotFull held given =>
    "pushback slot already holds " ++ Text.quotedChar held ++ "; cannot push back "
      ++ Text.quotedChar given
  | notPunctuation c => Text.quotedChar c

/-! ## §4. Outcomes -/

/-- The answer of an operation and the state after it, which is known after a failure too. -/
abbrev Outcome (σ α : Type) := Except Problem α × σ

namespace Outcome

variable {σ α β : Type}

/-- Changes the answer and keeps the state. -/
def mapAnswer (f : α → β) (r : Outcome σ α) : Outcome σ β := (r.1.map f, r.2)

@[simp] theorem mapAnswer_ok (f : α → β) (a : α) (s : σ) :
    mapAnswer f (.ok a, s) = (.ok (f a), s) := rfl

@[simp] theorem mapAnswer_error (f : α → β) (p : Problem) (s : σ) :
    mapAnswer f (.error p, s) = (.error p, s) := rfl

@[simp] theorem state_mapAnswer (f : α → β) (r : Outcome σ α) : (mapAnswer f r).2 = r.2 := rfl

end Outcome

end RpalLex
