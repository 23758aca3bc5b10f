import RpalLex.TokenIterator

/-! # Sessions

  A session is a sequence of operations on one object, each with its reply
  and the state after it.  An operation that fails leaves a state like any
  other, and the session goes on from there.

  There are sessions on a cursor (§2), on a cursor from which lexemes are
  read (§3), and on a lexer with iterators that share it (§4).

  Main statement: `length_play` (every operation gets a reply). -/

namespace RpalLex.Session

/-! ## §1. Replies -/

/-- The answer of an operation that did not fail. -/
inductive Reply where
  | done
  /-- A scope was entered. -/
  | entered
  /-- The next token, or the end of the text. -/
  | token (t : Option Token)
  /-- The next character, or the end of the text. -/
  | char (c : Option Char)
  | location (loc : Location)
  | tokens (ts : List Token)
  /-- An iterator has nothing more to deliver. -/
  | ended
deriving DecidableEq, Repr

/-- Performs operations one after another; each comes with its reply and the state after it. -/
def play {σ ω : Type} (perform : ω → σ → Outcome σ Reply) : List ω → σ → List (Outcome σ Reply)
  | [], _ => []
  | op :: ops, s => let r := perform op s; r :: play perform ops r.2

theorem length_play {σ ω : Type} (perform : ω → σ → Outcome σ Reply) (ops : List ω) (s : σ) :
    (play perform ops s).length = ops.length := by
  induction ops generalizing s with
  | nil => rfl
  | cons op ops ih => simp [play, ih]

/-! ## §2. On a cursor -/

/-- What may be asked of a cursor. -/
inductive CursorOp where
  | next
  | giveBack (c : Char)
  | close
  | location
  /-- Begins a scope that closes the cursor when it is left. -/
  | enter
  | leave
deriving DecidableEq, Repr

def CursorOp.perform : CursorOp → Cursor → Outcome Cursor Reply
  | next, cur => cur.next.mapAnswer .char
  | giveBack c, cur => (cur.giveBack c).mapAnswer fun _ => .done
  | close, cur => (.ok .done, cur.close)
  | location, cur => (.ok (.location cur.location), cur)
  | enter, cur => (.ok .entered, cur)
  | leave, cur => (.ok .done, cur.close)

/-! ## §3. On a cursor, with lexemes -/

/-- What may be asked of a cursor from which lexemes are read.  The first character and the
    location of a lexeme are given, and nobody checks them. -/
inductive LexemeOp where
  | word (first : Char) (start : Location)
  | integer (first : Char) (start : Location)
  | operator (first : Char) (start : Location)
  | whitespace (first : Char) (start : Location)
  | mark (first : Char) (start : Location)
  | comment (start : Location)
  | literal (start : Location)
  | cursor (op : CursorOp)
deriving DecidableEq, Repr

def LexemeOp.perform (keepNewline : Bool) : LexemeOp → Cursor → Outcome Cursor Reply
  | word first start, cur => (cur.word first start).mapAnswer (.token ∘ some)
  | integer first start, cur => (cur.integer first start).mapAnswer (.token ∘ some)
  | operator first start, cur => (cur.operator keepNewline first start).mapAnswer (.token ∘ some)
  | whitespace first start, cur => (cur.whitespace first start).mapAnswer (.token ∘ some)
  | mark first start, cur => (cur.mark first start).mapAnswer (.token ∘ some)
  | comment start, cur => (cur.comment keepNewline start).mapAnswer (.token ∘ some)
  | literal start, cur => (cur.literal start).mapAnswer (.token ∘ some)
  | cursor op, cur => op.perform cur

/-! ## §4. On a lexer, with iterators -/

/-- A lexer and the iterators on it, each under a number. -/
structure Shared where
  lexer : Lexer
  iterators : List (Nat × TokenIterator) := []
deriving DecidableEq, Repr

/-- What may be asked of a lexer that is shared. -/
inductive LexerOp where
  | next
  | close
  /-- Begins a scope that closes the lexer when it is left. -/
  | enter
  | leave
  /-- Iterates to the end and delivers all tokens. -/
  | drain
  /-- Makes a direct iterator. -/
  | iterate (id : Nat) (screened : Bool)
  /-- Makes a screening iterator. -/
  | screen (id : Nat)
  | advance (id : Nat)
  | stop (id : Nat)
  | cursor (op : CursorOp)
deriving DecidableEq, Repr

namespace Shared

/-- The iterator under a number; a number that was never given stands for one that ended. -/
def iterator (s : Shared) (id : Nat) : TokenIterator :=
  (s.iterators.lookup id).getD (.direct ⟨false, .finished⟩)

/-- Puts an iterator under a number. -/
def put (s : Shared) (id : Nat) (it : TokenIterator) : Shared :=
  { s with iterators := (id, it) :: s.iterators.filter (·.1 != id) }

/-- Puts a new iterator under a number.  The one that was there before is closed. -/
def make (s : Shared) (id : Nat) (it : TokenIterator) : Shared :=
  { s with lexer := ((s.iterator id).close s.lexer).2 }.put id it

@[simp] theorem iterator_put (s : Shared) (id : Nat) (it : TokenIterator) :
    (s.put id it).iterator id = it := by
  simp [put, iterator]

@[simp] theorem lexer_put (s : Shared) (id : Nat) (it : TokenIterator) :
    (s.put id it).lexer = s.lexer := rfl

end Shared

/-- The reply of an iterator. -/
def delivered : Option Token → Reply
  | some t => .token (some t)
  | none => .ended

def LexerOp.perform : LexerOp → Shared → Outcome Shared Reply
  | next, s => let r := s.lexer.next; (r.1.map .token, { s with lexer := r.2 })
  | close, s => (.ok .done, { s with lexer := s.lexer.close })
  | enter, s => (.ok .entered, s)
  | leave, s => (.ok .done, { s with lexer := s.lexer.close })
  | drain, s =>
    let r := s.lexer.collect false
    (r.result.map .tokens, { s with lexer := r.lexer })
  | iterate id screened, s => (.ok .done, s.make id (.direct { screened }))
  | screen id, s => (.ok .done, s.make id (.screening {}))
  | advance id, s =>
    let r := (s.iterator id).next s.lexer
    (r.1.map delivered, { s with lexer := r.2.2 }.put id r.2.1)
  | stop id, s =>
    let r := (s.iterator id).close s.lexer
    (.ok .done, { s with lexer := r.2 }.put id r.1)
  | cursor op, s =>
    let r := op.perform s.lexer.cursor
    (r.1, { s with lexer := { s.lexer with cursor := r.2 } })

end RpalLex.Session
