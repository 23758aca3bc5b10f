import RpalLex.Proofs.Sessions

/-! # What sessions keep

  Everything that happens to the cursor of a session is made of three
  operations, so a property that `next`, `giveBack` and `close` keep is kept
  by the whole session (§1).  So is a property of lexers that calls, closing
  and the operations on the cursor keep, whatever iterators are made (§2).

  Main statements: `Cursor.Kept.perform`, `Lexer.Kept.perform` and
  `Lexer.Kept.after` (what an operation and a session keep). -/

namespace RpalLex

/-! ## §1. Cursors -/

/-- Is it the purpose of the operation to close the cursor? -/
def Session.CursorOp.closes : CursorOp → Bool
  | close | leave => true
  | _ => false

theorem Session.CursorOp.isOpen_perform_of_closes {op : CursorOp} (h : op.closes = true)
    (cur : Cursor) : (op.perform cur).2.isOpen = false := by
  cases op with
  | close => exact cur.isOpen_close
  | leave => exact cur.isOpen_close
  | next => cases h
  | giveBack c => cases h
  | location => cases h
  | enter => cases h

namespace Cursor

variable {P : Cursor → Prop} {cur : Cursor}

/-- The three operations keep the property. -/
structure Kept (P : Cursor → Prop) : Prop extends Preserved P where
  close : ∀ cur : Cursor, P cur → P cur.close

theorem kept_not_isOpen : Kept fun cur => cur.isOpen = false where
  toPreserved := preserved_not_isOpen
  close := fun cur _ => isOpen_close cur

namespace Kept

theorem perform (hP : Kept P) (op : Session.CursorOp) (h : P cur) : P (op.perform cur).2 := by
  cases op with
  | next => exact hP.next cur h
  | giveBack c => exact hP.giveBack c cur h
  | close => exact hP.close cur h
  | location => exact h
  | enter => exact h
  | leave => exact hP.close cur h

theorem performLexeme (hP : Kept P) (keepNewline : Bool) (op : Session.LexemeOp) (h : P cur) :
    P (op.perform keepNewline cur).2 := by
  cases op with
  | word first start => exact hP.lexeme keepNewline .letter first start cur h
  | integer first start => exact hP.lexeme keepNewline .digit first start cur h
  | operator first start => exact hP.lexeme keepNewline .operator first start cur h
  | whitespace first start => exact hP.lexeme keepNewline .space first start cur h
  | mark first start => exact hP.lexeme keepNewline .punctuation first start cur h
  | comment start => exact hP.gather (commentRule keepNewline) ['/', '/'] cur h
  | literal start => exact hP.gather (literalRule start) ⟨[], false⟩ cur h
  | cursor op => exact hP.perform op h

theorem after (hP : Kept P) (ops : List Session.CursorOp) (h : P cur) :
    P (Session.after Session.CursorOp.perform ops cur) :=
  Session.after_preserves (fun op _ hcur => hP.perform op hcur) ops h

end Kept

end Cursor

/-! ## §2. Lexers -/

namespace Lexer

open Session

variable {Q : Lexer → Prop} {lx lx' : Lexer} {ts : List Token}

/-- Calls, closing, and what is asked of the cursor keep the property. -/
structure Kept (Q : Lexer → Prop) : Prop where
  next : ∀ lx : Lexer, Q lx → Q lx.next.2
  close : ∀ lx : Lexer, Q lx → Q lx.close
  cursor : ∀ (op : CursorOp) (lx : Lexer), Q lx → Q { lx with cursor := (op.perform lx.cursor).2 }

namespace Kept

theorem delivers (hQ : Kept Q) (hrun : lx.Delivers ts lx') (h : Q lx) : Q lx' := by
  induction hrun with
  | nil lx => exact h
  | @cons lx lx1 lx' t ts hnext _ ih =>
    have hcall := hQ.next lx h
    rw [hnext] at hcall
    exact ih hcall

theorem pull (hQ : Kept Q) (screened : Bool) (h : Q lx) : Q (lx.pull screened).2 := by
  obtain ⟨skipped, lx', hskipped, -, hlast⟩ := exists_pull screened lx
  have hnext := hQ.next lx' (hQ.delivers hskipped h)
  rcases hlast with ⟨t, -, -, hpull⟩ | ⟨problem, -, hpull⟩
  · rw [hpull]
    exact hnext
  · rw [hpull]
    exact hQ.close _ hnext

theorem collect (hQ : Kept Q) (screened : Bool) (h : Q lx) : Q (lx.collect screened).lexer := by
  obtain ⟨ts, problem, lx', hdelivers, hending⟩ := exists_finishes lx
  rw [hdelivers.collect hending screened]
  exact hQ.close _ (hQ.next lx' (hQ.delivers hdelivers h))

theorem perform (hQ : Kept Q) {s : Shared} (hs : s.Sound) (op : LexerOp) (h : Q s.lexer) :
    Q (op.perform s).2.lexer := by
  have heffect := hs.effect op
  generalize (op.perform s).1 = reply, (op.perform s).2.lexer = lx at heffect ⊢
  cases heffect with
  | call => exact hQ.next s.lexer h
  | drain => exact hQ.collect false h
  | pull => exact hQ.pull _ h
  | ended => exact h
  | quiet => exact h
  | release => exact hQ.close s.lexer h
  | cursor => exact hQ.cursor _ s.lexer h

theorem after (hQ : Kept Q) {s : Shared} (hs : s.Sound) (ops : List LexerOp) (h : Q s.lexer) :
    Q (Session.after LexerOp.perform ops s).lexer := by
  induction ops generalizing s with
  | nil => exact h
  | cons op ops ih => exact ih (hs.perform op) (hQ.perform hs op h)

end Kept

end Lexer

/-- A property of cursors that is kept is one of lexers. -/
theorem Cursor.Kept.onLexers {P : Cursor → Prop} (hP : Kept P) :
    Lexer.Kept fun lx => P lx.cursor where
  next := fun lx h => hP.afterCall hP.close lx h
  close := fun lx h => hP.close lx.cursor h
  cursor := fun op _ h => hP.perform op h

end RpalLex
