import RpalLex.Lexer

/-! # Iterators over tokens

  An iterator delivers the tokens of a lexer that it does not own: several
  iterators may take turns on one lexer.  Nothing happens before the first
  token is asked for.  When an iterator ends, fails, or is closed after it
  was started, it releases the lexer's stream; from then on it only reports
  its end.  Closing an iterator that was never started touches nothing.

  There are two ways to leave out discardable tokens.  A *direct* iterator
  skips them while it pulls; a *screening* iterator sits on top of a direct
  one that delivers everything. -/

namespace RpalLex

namespace TokenIterator

/-! ## §1. Direct iterators -/

/-- The life of an iterator. -/
inductive Phase where
  /-- Nothing was asked for yet. -/
  | fresh
  /-- A token was delivered, and more may come. -/
  | suspended
  /-- It ended, failed or was closed. -/
  | finished
deriving DecidableEq, Repr

/-- An iterator is suspended after it delivered a token, and finished after anything else. -/
def Phase.after : Except Problem (Option Token) → Phase
  | .ok (some _) => suspended
  | _ => finished

/-- An iterator that pulls from the lexer. -/
structure Direct where
  screened : Bool
  phase : Phase := .fresh
deriving DecidableEq, Repr

namespace Direct

/-- Delivers the next token, or `none` at the end. -/
def next (it : Direct) (lx : Lexer) : Outcome (Direct × Lexer) (Option Token) :=
  match it.phase with
  | .finished => (.ok none, it, lx)
  | _ =>
    let r := lx.pull it.screened
    (r.1, { it with phase := .after r.1 }, r.2)

/-- Ends the iterator. -/
def close (it : Direct) (lx : Lexer) : Direct × Lexer :=
  ({ it with phase := .finished }, if it.phase = .suspended then lx.close else lx)

theorem size_next_lt {it it' : Direct} {lx lx' : Lexer} {t : Token}
    (h : it.next lx = (.ok (some t), it', lx')) : lx'.size < lx.size := by
  unfold next at h
  split at h
  · simp at h
  · simp only [Prod.mk.injEq] at h
    exact Lexer.size_pull_lt (Prod.ext h.1 h.2.2)

end Direct

/-! ## §2. Screening iterators -/

/-- An iterator on top of a direct one. -/
structure Screening where
  inner : Direct := { screened := false }
  phase : Phase := .fresh
deriving DecidableEq, Repr

namespace Screening

/-- Takes tokens from the iterator beneath until one is not discardable. -/
def skip (inner : Direct) (lx : Lexer) : Outcome (Direct × Lexer) (Option Token) :=
  match _h : inner.next lx with
  | (.ok (some t), inner', lx') =>
    if t.isDiscardable then skip inner' lx' else (.ok (some t), inner', lx')
  | (.ok none, inner', lx') => (.ok none, inner', lx')
  | (.error p, inner', lx') => (.error p, inner', lx')
termination_by lx.size
decreasing_by exact Direct.size_next_lt ‹_›

/-- Delivers the next token that is not discardable, or `none` at the end. -/
def next (it : Screening) (lx : Lexer) : Outcome (Screening × Lexer) (Option Token) :=
  match it.phase with
  | .finished => (.ok none, it, lx)
  | _ =>
    let r := skip it.inner lx
    (r.1, { inner := r.2.1, phase := .after r.1 }, r.2.2)

/-- Ends the iterator, and the one beneath it if it was started. -/
def close (it : Screening) (lx : Lexer) : Screening × Lexer :=
  if it.phase = .suspended then
    let r := it.inner.close lx
    ({ inner := r.1, phase := .finished }, r.2)
  else ({ it with phase := .finished }, lx)

end Screening

end TokenIterator

/-! ## §3. Both kinds -/

/-- An iterator over the tokens of a lexer. -/
inductive TokenIterator where
  | direct (it : TokenIterator.Direct)
  | screening (it : TokenIterator.Screening)
deriving DecidableEq, Repr

namespace TokenIterator

/-- Delivers the next token, or `none` at the end. -/
def next (it : TokenIterator) (lx : Lexer) : Outcome (TokenIterator × Lexer) (Option Token) :=
  match it with
  | direct it => let r := it.next lx; (r.1, direct r.2.1, r.2.2)
  | screening it => let r := it.next lx; (r.1, screening r.2.1, r.2.2)

/-- Ends the iterator. -/
def close (it : TokenIterator) (lx : Lexer) : TokenIterator × Lexer :=
  match it with
  | direct it => let r := it.close lx; (direct r.1, r.2)
  | screening it => let r := it.close lx; (screening r.1, r.2)

end TokenIterator

end RpalLex
