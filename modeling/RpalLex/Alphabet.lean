/-! # The alphabet of RPAL

  RPAL programs are written in a part of ASCII.  Every character that may
  start a token belongs to exactly one *start class*, and that class alone
  decides which kind of token follows:

  * letters start identifiers and reserved words,
  * digits start integers,
  * operator symbols start operators and, doubled `/`, comments,
  * the quote starts a string literal,
  * blanks start white space,
  * punctuation marks are tokens by themselves.

  The underscore is an operator symbol where a token starts and continues an
  identifier inside one.  Three further sets say what may stand inside a
  string literal, inside a comment, and after a backslash in a string
  literal.  Characters outside ASCII belong to none of these sets.

  Main statements: `StartClass.ofChar?_eq_some_iff` (the class of a character
  is the one that contains it, because the classes are disjoint) and
  `mem_members` (the listed members of a set are its members in ASCII). -/

namespace RpalLex.Alphabet

/-! ## §1. Character sets -/

/-- The quote that opens and closes a string literal. -/
def quote : Char := '\''

/-- The symbols an operator is made of. -/
def operatorSymbols : List Char :=
  ['+', '-', '*', '<', '>', '&', '.', '@', '/', ':', '=', '~', '|', '$', '!', '#', '%', '^', '_',
   '[', ']', '\x7b', '\x7d', '"', '?']

/-- The marks that are tokens by themselves. -/
def punctuationMarks : List Char := ['(', ')', ';', ',']

/-- Blank characters: space, tab, line feed, carriage return, form feed, vertical tab. -/
def blanks : List Char := [' ', '\t', '\n', '\r', '\x0c', '\x0b']

/-- The characters that form an escape with the backslash before them. -/
def escapables : List Char := ['t', 'n', '\\', '\'']

/-- ASCII letters. -/
def isLetter (c : Char) : Bool := ('a' ≤ c && c ≤ 'z') || ('A' ≤ c && c ≤ 'Z')

/-- ASCII digits. -/
def isDigit (c : Char) : Bool := '0' ≤ c && c ≤ '9'

/-- Letters, digits and the underscore: what continues an identifier. -/
def isIdentifierChar (c : Char) : Bool := isLetter c || isDigit c || c == '_'

def isOperatorSymbol (c : Char) : Bool := operatorSymbols.contains c

def isPunctuation (c : Char) : Bool := punctuationMarks.contains c

def isBlank (c : Char) : Bool := blanks.contains c

def isEscapable (c : Char) : Bool := escapables.contains c

/-- The characters that stand for themselves in strings and comments alike. -/
def isPlain (c : Char) : Bool :=
  isPunctuation c || isLetter c || isDigit c || isOperatorSymbol c

/-- What may stand inside a string literal, its closing quote apart. -/
def isStringBody (c : Char) : Bool :=
  [' ', '\t', '\n', '\\'].contains c || isPlain c

/-- What may stand inside a comment; the line feed that ends it is not part of it. -/
def isCommentBody (c : Char) : Bool :=
  [' ', '\t', '\r', '\'', '\\'].contains c || isPlain c

/-! ## §2. Start classes -/

/-- What the first character of a token says about it. -/
inductive StartClass where
  | letter
  | digit
  | operator
  | quote
  | space
  | punctuation
deriving DecidableEq, Repr

namespace StartClass

/-- The start classes in their usual order. -/
def all : List StartClass := [letter, digit, operator, quote, space, punctuation]

def name : StartClass → String
  | letter => "LETTER"
  | digit => "DIGIT"
  | operator => "OPERATOR"
  | quote => "QUOTE"
  | space => "SPACE"
  | punctuation => "PUNCTUATION"

/-- The class whose name is `s`, if there is one. -/
def ofName? (s : String) : Option StartClass := all.find? (·.name == s)

/-- Does the class contain the character? -/
def contains : StartClass → Char → Bool
  | letter => isLetter
  | digit => isDigit
  | operator => isOperatorSymbol
  | quote => (· == Alphabet.quote)
  | space => isBlank
  | punctuation => isPunctuation

/-- The class of a token that starts with `c`; `none` if no token starts with `c`. -/
def ofChar? (c : Char) : Option StartClass := all.find? (·.contains c)

theorem mem_all (k : StartClass) : k ∈ all := by cases k <;> decide

end StartClass

/-! ## §3. Sets as lists, and questions about strings

  A string is asked about as a whole: it is in a set of characters if it is
  one character long and that character is in the set. -/

/-- The ASCII characters that satisfy `p`, in the order of their code points. -/
def members (p : Char → Bool) : List Char := ((List.range 128).map Char.ofNat).filter p

/-- Is `s` one character, and in the set? -/
def isMember (p : Char → Bool) (s : String) : Bool :=
  match s.toList with
  | [c] => p c
  | _ => false

/-- The start class of a string that is one character long. -/
def StartClass.ofString? (s : String) : Option StartClass :=
  match s.toList with
  | [c] => ofChar? c
  | _ => none

/-! ## §4. The classes are disjoint parts of ASCII -/

theorem lt_128_of_mem {l : List Char} (hl : (l.all fun c => c.toNat < 128) = true) {c : Char}
    (h : l.contains c = true) : c.toNat < 128 := by
  simpa using List.all_eq_true.1 hl c (List.contains_iff_mem.1 h)

namespace StartClass

theorem lt_128_of_contains {k : StartClass} {c : Char} (h : k.contains c = true) :
    c.toNat < 128 := by
  have e : c.toNat = c.val.toNat := rfl
  cases k with
  | letter =>
    simp only [contains, isLetter, Bool.or_eq_true, Bool.and_eq_true, decide_eq_true_eq,
      Char.le_def, UInt32.le_iff_toNat_le] at h
    have hz : ('z'.val).toNat = 122 := rfl
    have hZ : ('Z'.val).toNat = 90 := rfl
    omega
  | digit =>
    simp only [contains, isDigit, Bool.and_eq_true, decide_eq_true_eq, Char.le_def,
      UInt32.le_iff_toNat_le] at h
    have h9 : ('9'.val).toNat = 57 := rfl
    omega
  | operator => exact lt_128_of_mem (l := operatorSymbols) rfl h
  | quote => exact lt_128_of_mem (l := [Alphabet.quote]) rfl (by simpa [contains] using h)
  | space => exact lt_128_of_mem (l := blanks) rfl h
  | punctuation => exact lt_128_of_mem (l := punctuationMarks) rfl h

theorem contains_unique {k l : StartClass} {c : Char} (hk : k.contains c = true)
    (hl : l.contains c = true) : k = l := by
  have table : ∀ n < 128, ∀ k ∈ all, ∀ l ∈ all, k.contains (Char.ofNat n) = true →
      l.contains (Char.ofNat n) = true → k = l := by decide +kernel
  exact table c.toNat (lt_128_of_contains hk) k (mem_all k) l (mem_all l)
    (by rwa [Char.ofNat_toNat]) (by rwa [Char.ofNat_toNat])

theorem contains_of_ofChar? {k : StartClass} {c : Char} (h : ofChar? c = some k) :
    k.contains c = true := by
  unfold ofChar? at h
  exact List.find?_some (p := fun k : StartClass => k.contains c) h

theorem ofChar?_eq_some_iff {k : StartClass} {c : Char} :
    ofChar? c = some k ↔ k.contains c = true := by
  refine ⟨contains_of_ofChar?, fun h => ?_⟩
  cases hf : ofChar? c with
  | none => exact absurd h (by simpa using List.find?_eq_none.1 hf k (mem_all k))
  | some l => rw [contains_unique (contains_of_ofChar? hf) h]

theorem ofChar?_eq_none_iff {c : Char} :
    ofChar? c = none ↔ ∀ k : StartClass, k.contains c = false := by
  rw [ofChar?, List.find?_eq_none]
  exact ⟨fun h k => by simpa using h k (mem_all k), fun h k _ => by simp [h k]⟩

end StartClass

theorem mem_members {p : Char → Bool} {c : Char} :
    c ∈ members p ↔ c.toNat < 128 ∧ p c = true := by
  simp only [members, List.mem_filter, List.mem_map, List.mem_range]
  constructor
  · rintro ⟨⟨n, hn, rfl⟩, hp⟩
    refine ⟨?_, hp⟩
    have table : ((List.range 128).all fun n => (Char.ofNat n).toNat < 128) = true := by
      decide +kernel
    simpa using List.all_eq_true.1 table n (List.mem_range.2 hn)
  · rintro ⟨hc, hp⟩
    exact ⟨⟨c.toNat, hc, Char.ofNat_toNat c⟩, hp⟩

end RpalLex.Alphabet
