import RpalLex.Proofs.Kept

/-! # Lexers that have stopped

  A lexer has stopped when a call brings no token and leaves it as it is, with
  its stream released (§1).  Then nothing that is made of calls changes it any
  more: neither a pull nor an iteration, nor any operation of a session that
  does not go to the cursor itself (§2).

  If nothing waits in the slot either, the lexer is *spent*: it reports the
  end, or the error that it remembers, and what is asked of the cursor does
  not change it unless a character is given back (§3).

  Main statements: `Shared.lexer_perform_of_stopped` and
  `Spent.lexer_after`. -/

namespace RpalLex

namespace Lexer

variable {lx : Lexer} {problem : Option Problem}

/-! ## §1. Calls -/

/-- The next call brings no token and changes nothing. -/
structure Stopped (problem : Option Problem) (lx : Lexer) : Prop where
  next_eq : lx.next = (ending problem, lx)
  isOpen_eq : lx.cursor.isOpen = false

namespace Stopped

theorem close_eq (h : lx.Stopped problem) : lx.close = lx := close_of_not_isOpen h.isOpen_eq

theorem pull_eq (h : lx.Stopped problem) (screened : Bool) :
    lx.pull screened = (ending problem, lx) := by
  rw [pull_of_ending (congrArg Prod.fst h.next_eq), h.next_eq, h.close_eq]

theorem collect_eq (h : lx.Stopped problem) (screened : Bool) :
    lx.collect screened = ⟨[], problem, lx⟩ := by
  rw [(Delivers.nil lx).collect (congrArg Prod.fst h.next_eq) screened, h.next_eq, h.close_eq]
  rfl

end Stopped

end Lexer

/-! ## §2. Sessions -/

namespace Session

open Lexer

variable {s : Shared} {op : LexerOp} {problem : Option Problem}

/-- An operation that does not go to the cursor leaves the lexer as it is. -/
theorem Shared.lexer_perform_of_stopped (hs : s.Sound) (h : s.lexer.Stopped problem)
    (hop : ∀ cursorOp, op ≠ .cursor cursorOp) : (op.perform s).2.lexer = s.lexer := by
  have heffect := hs.effect op
  generalize (op.perform s).1 = reply, (op.perform s).2.lexer = lx at heffect ⊢
  cases heffect with
  | call => exact congrArg Prod.snd h.next_eq
  | drain => exact congrArg Run.lexer (h.collect_eq false)
  | pull => rw [h.pull_eq]
  | ended => rfl
  | quiet => rfl
  | release => exact h.close_eq
  | cursor => exact absurd rfl (hop _)

end Session

/-! ## §3. Spent lexers -/

/-- Nothing will come from the cursor any more. -/
structure Cursor.Spent (cur : Cursor) : Prop where
  failure_eq : cur.failure = none
  isOpen_eq : cur.isOpen = false
  slot_eq : cur.slot = none

namespace Cursor.Spent

variable {cur : Cursor}

theorem next_eq (h : cur.Spent) : cur.next = (.ok none, cur) := by
  simp [next, h.slot_eq, h.failure_eq, h.isOpen_eq]

theorem close_eq (h : cur.Spent) : cur.close = cur := close_of_not_isOpen h.isOpen_eq

/-- Only a character that is given back changes the cursor. -/
theorem perform (h : cur.Spent) {op : Session.CursorOp} (hop : ∀ c, op ≠ .giveBack c) :
    (op.perform cur).2 = cur := by
  cases op with
  | next => exact congrArg Prod.snd h.next_eq
  | giveBack c => exact absurd rfl (hop c)
  | close => exact h.close_eq
  | location => rfl
  | enter => rfl
  | leave => exact h.close_eq

end Cursor.Spent

/-- The next call brings no token and changes nothing, and nothing will come from the cursor. -/
structure Lexer.Spent (problem : Option Problem) (lx : Lexer) : Prop
    extends lx.Stopped problem where
  cursor : lx.cursor.Spent

/-- Nothing is given back by a session: not by its first operation, and not by the other ones. -/
theorem Session.not_giveBack_cons {op : LexerOp} {ops : List LexerOp}
    (h : ∀ c, .cursor (.giveBack c) ∉ op :: ops) :
    (∀ c, op ≠ .cursor (.giveBack c)) ∧ ∀ c, .cursor (.giveBack c) ∉ ops := by
  refine ⟨?_, ?_⟩
  · rintro c rfl
    exact h c List.mem_cons_self
  · intro c hmem
    exact h c (List.mem_cons_of_mem op hmem)

namespace Lexer

open Session

variable {lx : Lexer} {s : Shared} {problem : Option Problem} {e : LexError}

theorem spent_of_failure_none (hf : lx.failure = none) (h : lx.cursor.Spent) : lx.Spent none where
  next_eq := by
    have htoken : lx.cursor.nextToken lx.keepNewline = (.ok none, lx.cursor) := by
      simp only [Cursor.nextToken, h.next_eq]
    exact next_of_none hf htoken
  isOpen_eq := h.isOpen_eq
  cursor := h

theorem spent_of_failure (hf : lx.failure = some e) (h : lx.cursor.Spent) :
    lx.Spent (some (.lexical e)) where
  next_eq := next_of_failure hf
  isOpen_eq := h.isOpen_eq
  cursor := h

namespace Spent

theorem lexer_perform (h : s.lexer.Spent problem) (hs : s.Sound) {op : LexerOp}
    (hop : ∀ c, op ≠ .cursor (.giveBack c)) : (op.perform s).2.lexer = s.lexer := by
  by_cases hcursor : ∃ cursorOp, op = .cursor cursorOp
  · obtain ⟨cursorOp, rfl⟩ := hcursor
    have hsame : (cursorOp.perform s.lexer.cursor).2 = s.lexer.cursor := by
      apply h.cursor.perform
      rintro c rfl
      exact hop c rfl
    show { s.lexer with cursor := (cursorOp.perform s.lexer.cursor).2 } = s.lexer
    rw [hsame]
  · apply Shared.lexer_perform_of_stopped hs h.toStopped
    intro cursorOp heq
    exact hcursor ⟨cursorOp, heq⟩

/-- As long as no character is given back, nothing changes a spent lexer. -/
theorem lexer_after (h : s.lexer.Spent problem) (hs : s.Sound) (ops : List LexerOp)
    (hops : ∀ c, .cursor (.giveBack c) ∉ ops) :
    (after LexerOp.perform ops s).lexer = s.lexer := by
  induction ops generalizing s with
  | nil => rfl
  | cons op ops ih =>
    obtain ⟨hop, hops⟩ := not_giveBack_cons hops
    have hsame := h.lexer_perform hs hop
    rw [after_cons, ih (hsame ▸ h) (hs.perform op) hops, hsame]

/-- Every call is answered in the same way. -/
theorem reply (h : s.lexer.Spent problem) :
    (LexerOp.next.perform s).1 = (ending problem).map .token := by
  show s.lexer.next.1.map Reply.token = _
  rw [h.next_eq]

end Spent

end Lexer

end RpalLex
