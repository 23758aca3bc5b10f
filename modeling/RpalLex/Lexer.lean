import RpalLex.Lexeme

/-! # The lexer

  The lexer delivers the tokens of a program one by one.  It reads the first
  character of a token, takes its start class, and reads the lexeme that
  belongs to the class.

  State: the cursor, whether the line feed that ends a comment is kept, how
  many tokens were delivered, and the first lexical error.

  Operations:

  * `next` delivers a token, or `none` at the end of the text.  A lexical
    error closes the cursor, and every later call fails with the same error.
    Any other problem passes through and is not remembered.
  * `pull` is `next` as an iteration calls it: it skips discardable tokens
    if they are screened, and it closes the cursor at the end and on every
    problem.
  * `collect` pulls until the end or a problem, and `tokenize` does so with
    a text.

  Main statements: `size_next_lt` and `size_pull_lt` (every token takes at
  least one character, so `collect` comes to an end). -/

namespace RpalLex

open Alphabet

/-! ## §1. One token -/

namespace Cursor

/-- The lexeme of a start class, after its first character. -/
def lexeme (keepNewline : Bool) (startClass : StartClass) (first : Char) (start : Location)
    (cur : Cursor) : Outcome Cursor Token :=
  match startClass with
  | .letter => cur.word first start
  | .digit => cur.integer first start
  | .operator => cur.operator keepNewline first start
  | .quote => cur.literal start
  | .space => cur.whitespace first start
  | .punctuation => cur.mark first start

/-- The next token, or `none` at the end of the text. -/
def nextToken (keepNewline : Bool) (cur : Cursor) : Outcome Cursor (Option Token) :=
  match cur.next with
  | (.error p, cur') => (.error p, cur')
  | (.ok none, cur') => (.ok none, cur')
  | (.ok (some c), cur') =>
    match StartClass.ofChar? c with
    | some k => (cur'.lexeme keepNewline k c cur.location).mapAnswer some
    | none => (.error (.lexical (.invalidCharacter c (some cur.location) none)), cur')

theorem size_lexeme_le (keepNewline : Bool) (k : StartClass) (first : Char) (start : Location)
    (cur : Cursor) : (cur.lexeme keepNewline k first start).2.size ≤ cur.size := by
  cases k
  · exact size_munch_le _ _ _
  · exact size_munch_le _ _ _
  · exact size_operator_le _ _ _ _
  · exact size_literal_le _ _
  · exact size_munch_le _ _ _
  · exact size_mark_le _ _ _

theorem size_nextToken_lt {keepNewline : Bool} {cur cur' : Cursor} {t : Token}
    (h : cur.nextToken keepNewline = (.ok (some t), cur')) : cur'.size < cur.size := by
  unfold nextToken at h
  split at h
  · simp at h
  · simp at h
  · next c cur1 h1 =>
    have h2 := size_next_lt h1
    split at h
    · next k hk =>
      have h3 := size_lexeme_le keepNewline k c cur.location cur1
      have h4 : (cur1.lexeme keepNewline k c cur.location).2 = cur' := congrArg Prod.snd h
      rw [h4] at h3
      omega
    · simp at h

end Cursor

/-! ## §2. The lexer -/

/-- A program that is being split into tokens. -/
structure Lexer where
  cursor : Cursor
  /-- Is the line feed that ends a comment given back, to come out as white space? -/
  keepNewline : Bool := false
  /-- How many tokens were delivered, discardable ones included. -/
  tokenCount : Nat := 0
  /-- The first lexical error. -/
  failure : Option LexError := none
deriving DecidableEq, Repr

namespace Lexer

/-- A lexer at the beginning of a text. -/
def ofText (text filename : String) (keepNewline : Bool) : Lexer :=
  { cursor := .ofText text filename, keepNewline }

/-- Releases the stream. -/
def close (lx : Lexer) : Lexer := { lx with cursor := lx.cursor.close }

/-- Delivers the next token, or `none` at the end of the text. -/
def next (lx : Lexer) : Outcome Lexer (Option Token) :=
  match lx.failure with
  | some e => (.error (.lexical e), lx)
  | none =>
    match lx.cursor.nextToken lx.keepNewline with
    | (.ok none, cur) => (.ok none, { lx with cursor := cur })
    | (.ok (some t), cur) =>
      (.ok (some t), { lx with cursor := cur, tokenCount := lx.tokenCount + 1 })
    | (.error (.lexical e), cur) =>
      (.error (.lexical e), { lx with cursor := cur.close, failure := some e })
    | (.error p, cur) => (.error p, { lx with cursor := cur })

/-- How much may still come. -/
def size (lx : Lexer) : Nat := lx.cursor.size

@[simp] theorem size_close (lx : Lexer) : lx.close.size = lx.size := by simp [size, close]

theorem size_next_lt {lx lx' : Lexer} {t : Token} (h : lx.next = (.ok (some t), lx')) :
    lx'.size < lx.size := by
  unfold next at h
  split at h
  · simp at h
  · split at h
    · simp at h
    · next h1 =>
      simp only [Prod.mk.injEq] at h
      rw [← h.2]
      exact Cursor.size_nextToken_lt h1
    · simp at h
    · simp at h

/-! ## §3. Iterating -/

/-- Delivers the next token to an iteration: discardable tokens are skipped if they are screened,
    and at the end and on every problem the stream is released. -/
def pull (screened : Bool) (lx : Lexer) : Outcome Lexer (Option Token) :=
  match _h : lx.next with
  | (.ok (some t), lx') =>
    if screened && t.isDiscardable then pull screened lx' else (.ok (some t), lx')
  | (.ok none, lx') => (.ok none, lx'.close)
  | (.error p, lx') => (.error p, lx'.close)
termination_by lx.size
decreasing_by exact size_next_lt ‹_›

theorem size_pull_lt {screened : Bool} {lx lx' : Lexer} {t : Token}
    (h : lx.pull screened = (.ok (some t), lx')) : lx'.size < lx.size := by
  fun_induction pull screened lx with
  | case1 lx u lx1 h1 hd ih => exact Nat.lt_trans (ih h) (size_next_lt h1)
  | case2 lx u lx1 h1 hd =>
    simp only [Prod.mk.injEq] at h
    rw [← h.2]
    exact size_next_lt h1
  | case3 lx lx1 h1 => simp at h
  | case4 lx p lx1 h1 => simp at h

/-- What an iteration delivered, what it failed with, and the lexer after it. -/
structure Run where
  tokens : List Token
  /-- `none` if the end of the text was reached. -/
  problem : Option Problem
  lexer : Lexer
deriving DecidableEq, Repr

/-- Iterates until the end or a problem.  `delivered` are the tokens so far, newest first. -/
def collectFrom (screened : Bool) (delivered : List Token) (lx : Lexer) : Run :=
  match _h : lx.pull screened with
  | (.ok (some t), lx') => collectFrom screened (t :: delivered) lx'
  | (.ok none, lx') => ⟨delivered.reverse, none, lx'⟩
  | (.error p, lx') => ⟨delivered.reverse, some p, lx'⟩
termination_by lx.size
decreasing_by exact size_pull_lt ‹_›

/-- Iterates until the end or a problem. -/
def collect (screened : Bool) (lx : Lexer) : Run := lx.collectFrom screened []

/-- The tokens if the end was reached, else the problem. -/
def Run.result (r : Run) : Except Problem (List Token) :=
  match r.problem with
  | none => .ok r.tokens
  | some p => .error p

end Lexer

/-- The tokens of a text. -/
def tokenize (text filename : String) (keepNewline screened : Bool) :
    Except Problem (List Token) :=
  ((Lexer.ofText text filename keepNewline).collect screened).result

end RpalLex
