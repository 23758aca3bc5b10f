import RpalLex.Cursor
import RpalLex.Token

/-! # Lexemes

  A lexeme is what a cursor reads from the first character of a token to its
  last.  All lexemes are read by one loop, `gather`, under a *rule* that
  keeps a state and looks at one character at a time:

  * `extend`: the character belongs to the lexeme, which goes on;
  * `finish`: the character is its last one;
  * `stopBefore`: the lexeme ended before it, and the character is given back;
  * `reject`: the character cannot stand there.

  The rule also says what the end of the text means.  Words, integers, white
  space and operators take as many characters of one set as there are
  (`munch`); comments and string literals have rules of their own.

  The functions of §3 read one token each.  They start after the characters
  that decided which token it is, and take its first character and its
  location as they are given.

  Main statements: `gather_extend`, `gather_finish`, `gather_stopBefore`,
  `gather_reject` (the loop, one verdict at a time) and `size_gather_le` (no
  lexeme gives back more than it took). -/

namespace RpalLex

open Alphabet

/-! ## §1. Rules and the loop -/

/-- What a character means for the lexeme it is met in. -/
inductive Verdict (σ α : Type) where
  | extend (state : σ)
  | finish (result : α)
  | stopBefore (result : α)
  | reject (context : Option String)

/-- How to read one kind of lexeme. -/
structure Rule (σ α : Type) where
  onChar : σ → Char → Verdict σ α
  /-- What the end of the text means. -/
  onEnd : σ → Except LexError α

namespace Cursor

variable {σ α : Type}

/-- Gives back the character just read and answers. -/
def stopBefore (c : Char) (result : α) (cur : Cursor) : Outcome Cursor α :=
  (cur.giveBack c).mapAnswer fun _ => result

/-- Reads a lexeme under a rule, from a state.  It ends because each round takes a character. -/
def gather (rule : Rule σ α) (s : σ) (cur : Cursor) : Outcome Cursor α :=
  match _h : cur.next with
  | (.error p, cur') => (.error p, cur')
  | (.ok none, cur') => ((rule.onEnd s).mapError .lexical, cur')
  | (.ok (some c), cur') =>
    match rule.onChar s c with
    | .extend s' => gather rule s' cur'
    | .finish a => (.ok a, cur')
    | .stopBefore a => cur'.stopBefore c a
    | .reject context =>
      (.error (.lexical (.invalidCharacter c (some cur.location) context)), cur')
termination_by cur.size
decreasing_by exact size_next_lt ‹_›

/-! ## §2. The loop, step by step -/

variable {rule : Rule σ α} {s s' : σ} {cur cur' : Cursor} {c : Char} {a : α}

theorem gather_error {p : Problem} (h : cur.next = (.error p, cur')) :
    gather rule s cur = (.error p, cur') := by
  rw [gather]; split <;> simp_all

theorem gather_end (h : cur.next = (.ok none, cur')) :
    gather rule s cur = ((rule.onEnd s).mapError .lexical, cur') := by
  rw [gather]; split <;> simp_all

theorem gather_char (h : cur.next = (.ok (some c), cur')) :
    gather rule s cur = match rule.onChar s c with
      | .extend s' => gather rule s' cur'
      | .finish a => (.ok a, cur')
      | .stopBefore a => cur'.stopBefore c a
      | .reject context =>
        (.error (.lexical (.invalidCharacter c (some cur.location) context)), cur') := by
  rw [gather]; split <;> simp_all

theorem gather_extend (h : cur.next = (.ok (some c), cur')) (hv : rule.onChar s c = .extend s') :
    gather rule s cur = gather rule s' cur' := by
  rw [gather_char h, hv]

theorem gather_finish (h : cur.next = (.ok (some c), cur')) (hv : rule.onChar s c = .finish a) :
    gather rule s cur = (.ok a, cur') := by
  rw [gather_char h, hv]

theorem gather_stopBefore (h : cur.next = (.ok (some c), cur'))
    (hv : rule.onChar s c = .stopBefore a) : gather rule s cur = cur'.stopBefore c a := by
  rw [gather_char h, hv]

theorem gather_reject {context : Option String} (h : cur.next = (.ok (some c), cur'))
    (hv : rule.onChar s c = .reject context) :
    gather rule s cur =
      (.error (.lexical (.invalidCharacter c (some cur.location) context)), cur') := by
  rw [gather_char h, hv]

theorem size_stopBefore_le (h : cur.next = (.ok (some c), cur')) (a : α) :
    (cur'.stopBefore c a).2.size ≤ cur.size := by
  have h1 := size_next_lt h
  have h2 := size_giveBack_le cur' c
  simp only [stopBefore, Outcome.state_mapAnswer]
  omega

theorem size_gather_le (rule : Rule σ α) (s : σ) (cur : Cursor) :
    (gather rule s cur).2.size ≤ cur.size := by
  fun_induction gather rule s cur with
  | case1 s cur p cur' h => simpa [h] using size_next_le cur
  | case2 s cur cur' h => simpa [h] using size_next_le cur
  | case3 s cur cur' c h s' hv ih => exact Nat.le_trans ih (Nat.le_of_lt (size_next_lt h))
  | case4 s cur cur' c h a hv => exact Nat.le_of_lt (size_next_lt h)
  | case5 s cur cur' c h a hv => exact size_stopBefore_le h a
  | case6 s cur cur' c h context hv => exact Nat.le_of_lt (size_next_lt h)

/-! ## §3. The lexemes of RPAL -/

/-- Takes characters as long as they are accepted.  The state is what was taken, newest first. -/
def munchRule (accept : Char → Bool) : Rule (List Char) (List Char) where
  onChar taken c := if accept c then .extend (c :: taken) else .stopBefore taken.reverse
  onEnd taken := .ok taken.reverse

/-- `text` with the longest row of accepted characters after it. -/
def munch (accept : Char → Bool) (text : List Char) (cur : Cursor) : Outcome Cursor (List Char) :=
  gather (munchRule accept) text.reverse cur

/-- A token of a fixed kind, from the characters of its value. -/
def tokenOf (kind : Token.Kind) (start : Location) (value : List Char) : Token :=
  ⟨kind, String.ofList value, start⟩

/-- An identifier or a reserved word. -/
def word (first : Char) (start : Location) (cur : Cursor) : Outcome Cursor Token :=
  (cur.munch isIdentifierChar [first]).mapAnswer fun cs => Token.ofWord (String.ofList cs) start

/-- A row of digits. -/
def integer (first : Char) (start : Location) (cur : Cursor) : Outcome Cursor Token :=
  (cur.munch isDigit [first]).mapAnswer (tokenOf .integer start)

/-- A row of blanks. -/
def whitespace (first : Char) (start : Location) (cur : Cursor) : Outcome Cursor Token :=
  (cur.munch isBlank [first]).mapAnswer (tokenOf .whitespace start)

/-- A punctuation mark. -/
def mark (first : Char) (start : Location) (cur : Cursor) : Outcome Cursor Token :=
  match Token.Kind.ofMark? first with
  | some kind => (.ok (tokenOf kind start [first]), cur)
  | none => (.error (.notPunctuation first), cur)

/-- The rest of a comment's line.  The line feed is given back if it is kept, and dropped if not.
    The state is what was taken, newest first. -/
def commentRule (keepNewline : Bool) : Rule (List Char) (List Char) where
  onChar taken c :=
    if c = '\n' then
      if keepNewline then .stopBefore taken.reverse else .finish taken.reverse
    else if isCommentBody c then .extend (c :: taken)
    else .reject (some "comment")
  onEnd taken := .ok taken.reverse

/-- A comment, after its two slashes. -/
def comment (keepNewline : Bool) (start : Location) (cur : Cursor) : Outcome Cursor Token :=
  (gather (commentRule keepNewline) ['/', '/'] cur).mapAnswer (tokenOf .comment start)

/-- An operator, or a comment if the first two characters are slashes.  Slashes further on are
    operator symbols like any other. -/
def operator (keepNewline : Bool) (first : Char) (start : Location) (cur : Cursor) :
    Outcome Cursor Token :=
  match cur.next with
  | (.error p, cur') => (.error p, cur')
  | (.ok none, cur') => (.ok (tokenOf .operator start [first]), cur')
  | (.ok (some second), cur') =>
    if first = '/' ∧ second = '/' then cur'.comment keepNewline start
    else
      match cur'.giveBack second with
      | (.error p, cur'') => (.error p, cur'')
      | (.ok (), cur'') =>
        (cur''.munch isOperatorSymbol [first]).mapAnswer (tokenOf .operator start)

/-- A string literal that is still open: its body so far, newest character first, and whether an
    escape may be completed, which is so right after a backslash that is not itself escaped. -/
structure OpenLiteral where
  body : List Char
  escaping : Bool
deriving DecidableEq, Repr

/-- The body of a string literal.  A backslash before an escapable character makes an escape, and
    a quote in an escape does not end the literal; a backslash before anything else stands for
    itself. -/
def literalRule (start : Location) : Rule OpenLiteral (List Char) where
  onChar s c :=
    if s.escaping && isEscapable c then .extend ⟨c :: s.body, false⟩
    else if c = quote then .finish s.body.reverse
    else if isStringBody c then .extend ⟨c :: s.body, c == '\\'⟩
    else .reject (some "string literal")
  onEnd _ := .error (.unterminatedString (some start))

/-- A string literal, after its opening quote. -/
def literal (start : Location) (cur : Cursor) : Outcome Cursor Token :=
  (gather (literalRule start) ⟨[], false⟩ cur).mapAnswer (tokenOf .string start)

/-! ## §4. Sizes -/

theorem size_munch_le (accept : Char → Bool) (text : List Char) (cur : Cursor) :
    (cur.munch accept text).2.size ≤ cur.size := size_gather_le _ _ _

theorem size_comment_le (keepNewline : Bool) (start : Location) (cur : Cursor) :
    (cur.comment keepNewline start).2.size ≤ cur.size := size_gather_le _ _ _

theorem size_mark_le (first : Char) (start : Location) (cur : Cursor) :
    (cur.mark first start).2.size ≤ cur.size := by
  unfold mark; split <;> exact Nat.le_refl _

theorem size_operator_le (keepNewline : Bool) (first : Char) (start : Location) (cur : Cursor) :
    (cur.operator keepNewline first start).2.size ≤ cur.size := by
  unfold operator
  split
  · next h => simpa [h] using size_next_le cur
  · next h => simpa [h] using size_next_le cur
  · next second cur' h =>
    have h1 := size_next_lt h
    split
    · have := size_comment_le keepNewline start cur'
      omega
    · have h2 := size_giveBack_le cur' second
      split
      · next h3 => rw [h3] at h2; simp only at h2 ⊢; omega
      · next cur'' h3 =>
        have := size_munch_le isOperatorSymbol [first] cur''
        rw [h3] at h2
        simp only [Outcome.state_mapAnswer] at h2 ⊢
        omega

theorem size_literal_le (start : Location) (cur : Cursor) :
    (cur.literal start).2.size ≤ cur.size := size_gather_le _ _ _

end Cursor

end RpalLex
