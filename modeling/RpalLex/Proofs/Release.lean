import RpalLex.Proofs.FinalError
import RpalLex.Proofs.Kept
import RpalLex.Proofs.Sharing

/-! # The stream is released once

  A stream may end, fail or be interrupted at any time, and there are many
  ways to release it: the end of the text and a failure close the cursor deep
  inside a lexeme, a lexical error closes it again, and so do calls, scopes
  and iterators, one above the other.

  What happened to the stream is known from its history.  The cursor keeps it
  *orderly*: as long as it holds the stream nothing final happened, and then
  the stream was released once and not read any more (§1).

  An iterator that was started is suspended, or the stream has been released:
  it suspends itself with a token, and everything that ends it releases
  (§2).

  Main statements: `kept_orderly`, `Resting.perform` and `released_once`. -/

namespace RpalLex

/-- Is it the last read of a stream?  After the end and after a failure for good there is nothing
    to come; after an interruption there is. -/
def Read.isLast : Read → Bool
  | char _ => false
  | endOfText => true
  | fault f => f.kind.endsReading

/-- May a stream not be read any more after this? -/
def Stream.Event.isLast : Stream.Event → Bool
  | read given => given.isLast
  | close => true

namespace Cursor

variable {cur : Cursor}

/-! ## §1. The history of a stream -/

/-- What a cursor asked of its stream, as the newest event comes first. -/
structure Orderly (cur : Cursor) : Prop where
  closeCount_eq : cur.stream.closeCount = if cur.isOpen then 0 else 1
  /-- A stream that is still held may be read. -/
  ongoing : cur.isOpen = true → ∀ e ∈ cur.stream.history, e.isLast = false
  /-- After a last event there was no read. -/
  unread : cur.stream.history.Pairwise fun newer older =>
    older.isLast = true → ∀ r, newer ≠ .read r

/-- A read that is not the last one. -/
theorem Orderly.read (h : cur.Orderly) (hopen : cur.isOpen = true) {stream : Stream} {r : Read}
    (hread : cur.stream.read = (r, stream)) (hr : r.isLast = false) (place : Place) :
    Orderly { cur with stream, place } := by
  have hhistory := Stream.history_of_read hread
  have hcount : stream.closeCount = cur.stream.closeCount := by
    simp [Stream.closeCount, hhistory]
  refine ⟨hcount.trans h.closeCount_eq, ?_, ?_⟩
  · intro _ e he
    have hmem : e ∈ Stream.Event.read r :: cur.stream.history := hhistory ▸ he
    rcases List.mem_cons.1 hmem with rfl | hbefore
    · exact hr
    · exact h.ongoing hopen e hbefore
  · show stream.history.Pairwise _
    rw [hhistory, List.pairwise_cons]
    refine ⟨fun e he hlast => ?_, h.unread⟩
    exact absurd (hlast.symm.trans (h.ongoing hopen e he)) (by simp)

/-- The last read, and then the release. -/
theorem Orderly.readLast (h : cur.Orderly) (hopen : cur.isOpen = true) {stream : Stream} {r : Read}
    (hread : cur.stream.read = (r, stream)) (failure : Option Failure) :
    Orderly (close { cur with stream, failure }) := by
  have hhistory := Stream.history_of_read hread
  have hclose : close { cur with stream, failure } =
      { cur with stream := stream.close, failure, isOpen := false } := by
    simp [close, hopen]
  have hcount : stream.closeCount = 0 := by
    have hbefore := h.closeCount_eq
    rw [hopen] at hbefore
    simpa [Stream.closeCount, hhistory] using hbefore
  rw [hclose]
  refine ⟨?_, fun hno => absurd hno (by simp), ?_⟩
  · simp [hcount]
  · show (Stream.Event.close :: stream.history).Pairwise _
    rw [hhistory, List.pairwise_cons, List.pairwise_cons]
    refine ⟨fun e _ _ => by simp, fun e he hlast => ?_, h.unread⟩
    exact absurd (hlast.symm.trans (h.ongoing hopen e he)) (by simp)

theorem Orderly.close (h : cur.Orderly) : cur.close.Orderly := by
  cases hopen : cur.isOpen with
  | false => rwa [close_of_not_isOpen hopen]
  | true =>
    have hclose : cur.close = { cur with isOpen := false, stream := cur.stream.close } := by
      simp [Cursor.close, hopen]
    have hcount : cur.stream.closeCount = 0 := by rw [h.closeCount_eq, hopen]; rfl
    rw [hclose]
    refine ⟨by simp [hcount], fun hno => absurd hno (by simp), ?_⟩
    show (Stream.Event.close :: cur.stream.history).Pairwise _
    rw [List.pairwise_cons]
    exact ⟨fun e _ _ => by simp, h.unread⟩

theorem kept_orderly : Kept Orderly where
  next := by
    intro cur h
    have hdelivery := cur.delivery
    generalize cur.next = r at hdelivery
    cases hdelivery with
    | held => exact ⟨h.closeCount_eq, h.ongoing, h.unread⟩
    | failedBefore => exact h
    | released => exact h
    | char _ _ hopen hread => exact h.read hopen hread rfl _
    | ended _ _ hopen hread => exact h.readLast hopen hread _
    | failed _ _ hopen hread => exact h.readLast hopen hread _
    | interrupted _ _ hopen hread hf => exact h.read hopen hread hf _
  giveBack := by
    intro c cur h
    rcases giveBack_cases c cur with ⟨-, hback⟩ | ⟨held, -, hback⟩
    · rw [hback]
      exact ⟨h.closeCount_eq, h.ongoing, h.unread⟩
    · rw [hback]
      exact h
  close := fun cur h => h.close

theorem orderly_fresh (script : List Read) (filename : String) :
    Orderly { filename, stream := ⟨script, []⟩ } :=
  ⟨rfl, fun _ e he => absurd he (by simp), .nil⟩

end Cursor

namespace Lexer

/-! ## §2. Iterators that were started -/

/-- A pull that brings no token releases the stream. -/
theorem isOpen_pull {lx : Lexer} {screened : Bool}
    (h : ∀ t, (lx.pull screened).1 ≠ .ok (some t)) :
    (lx.pull screened).2.cursor.isOpen = false := by
  obtain ⟨skipped, lx', -, -, hlast⟩ := exists_pull screened lx
  rcases hlast with ⟨t, hnext, -, hpull⟩ | ⟨problem, -, hpull⟩
  · rw [hpull] at h
    exact absurd hnext (h t)
  · rw [hpull]
    exact Cursor.isOpen_close lx'.next.2.cursor

theorem isOpen_collect (screened : Bool) (lx : Lexer) :
    (lx.collect screened).lexer.cursor.isOpen = false := by
  obtain ⟨ts, problem, lx', hdelivers, hending⟩ := exists_finishes lx
  rw [hdelivers.collect hending screened]
  exact Cursor.isOpen_close lx'.next.2.cursor

end Lexer

namespace Session

open Lexer

variable {s : Shared} {op : LexerOp} {ops : List LexerOp} {id : Nat}

/-- The iterator is suspended, or the stream has been released. -/
def Resting (id : Nat) (s : Shared) : Prop :=
  s.lexer.cursor.isOpen = false ∨ (s.iterator id).phase = .suspended

/-- The iterator was advanced before it had ended. -/
def Started (id : Nat) : List LexerOp → Shared → Prop :=
  happened fun op s => op = .advance id ∧ (s.iterator id).phase ≠ .finished

instance (id : Nat) (ops : List LexerOp) (s : Shared) : Decidable (Started id ops s) :=
  decidableHappened ops s

/-- An iterator that has not ended is suspended by a token, and everything else releases. -/
theorem advance_of_live_cases (hs : (s.iterator id).Sound)
    (hlive : (s.iterator id).phase ≠ .finished) :
    ((∃ t, ((LexerOp.advance id).perform s).1 = .ok (.token (some t))) ∧
      (((LexerOp.advance id).perform s).2.iterator id).phase = .suspended) ∨
    ((LexerOp.advance id).perform s).2.lexer.cursor.isOpen = false := by
  obtain ⟨s', hadvance, hlexer, -, -, hphase⟩ := Shared.advance_of_live hs hlive
  rw [hadvance]
  rcases hanswer : (s.lexer.pull (s.iterator id).screens).1 with p | _ | t
  · right
    rw [hlexer]
    exact isOpen_pull (by simp [hanswer])
  · right
    rw [hlexer]
    exact isOpen_pull (by simp [hanswer])
  · left
    rw [hanswer] at hphase
    exact ⟨⟨t, rfl⟩, hphase⟩

/-- Closing an iterator that rests, to end it or to replace it, closes the lexer, which it may have
    been before. -/
theorem Resting.lexer_close (h : Resting id s) (hs : s.Sound) :
    ((s.iterator id).close s.lexer).2 = s.lexer.close := by
  rw [((hs id).close s.lexer).1]
  rcases h with hreleased | hsuspended
  · rw [close_of_not_isOpen hreleased, ite_self]
  · rw [if_pos hsuspended]

theorem Resting.isOpen_close (h : Resting id s) (hs : s.Sound) :
    ((s.iterator id).close s.lexer).2.cursor.isOpen = false := by
  rw [h.lexer_close hs]
  exact Cursor.isOpen_close s.lexer.cursor

theorem Resting.perform (h : Resting id s) (hs : s.Sound) (op : LexerOp) :
    Resting id (op.perform s).2 := by
  rcases h with hreleased | hsuspended
  · exact .inl (Cursor.kept_not_isOpen.onLexers.perform hs op hreleased)
  · have hrests : Resting id s := .inr hsuspended
    -- An operation on another iterator does not touch this one.
    have hmake : ∀ id' it, Resting id (s.make id' it) := by
      intro id' it
      by_cases hid : id = id'
      · subst hid
        exact .inl (hrests.isOpen_close hs)
      · right
        rw [Shared.iterator_make_eq, if_neg hid]
        exact hsuspended
    cases op with
    | next => exact .inr hsuspended
    | close => exact .inr hsuspended
    | enter => exact .inr hsuspended
    | leave => exact .inr hsuspended
    | drain => exact .inr hsuspended
    | cursor op => exact .inr hsuspended
    | iterate id' screened => exact hmake id' _
    | screen id' => exact hmake id' _
    | stop id' =>
      by_cases hid : id = id'
      · subst hid
        exact .inl (hrests.isOpen_close hs)
      · right
        show (Shared.iterator (Shared.put _ id' _) id).phase = _
        rw [Shared.iterator_put_of_ne _ _ hid]
        exact hsuspended
    | advance id' =>
      by_cases hid : id = id'
      · subst hid
        have hlive : (s.iterator id).phase ≠ .finished := by simp [hsuspended]
        rcases advance_of_live_cases (hs id) hlive with ⟨-, hphase⟩ | hreleased
        · exact .inr hphase
        · exact .inl hreleased
      · right
        rw [iterator_advance_of_ne hid]
        exact hsuspended

/-- An iterator that was started rests from then on. -/
theorem resting_of_started (hs : s.Sound) (h : Started id ops s) :
    Resting id (after LexerOp.perform ops s) := by
  have hlater : ∀ {s : Shared} (ops : List LexerOp), s.Sound → Resting id s →
      Resting id (after LexerOp.perform ops s) := by
    intro s ops hs h
    induction ops generalizing s with
    | nil => exact h
    | cons op ops ih => exact ih (hs.perform op) (h.perform hs op)
  induction ops generalizing s with
  | nil => exact h.elim
  | cons op ops ih =>
    rcases h with ⟨rfl, hlive⟩ | hlater'
    · apply hlater ops (hs.perform _)
      rcases advance_of_live_cases (hs id) hlive with ⟨-, hphase⟩ | hreleased
      · exact .inr hphase
      · exact .inl hreleased
    · exact ih (hs.perform op) hlater'

/-! ## §3. The whole session -/

/-- Must an operation leave the stream released?  So it is with a call that reports the end or a
    lexical error, with everything that closes the lexer or the cursor, and with every operation by
    which an iterator that was started ends. -/
def Releases (ops : List LexerOp) (fresh : Shared) (op : LexerOp) : Prop :=
  let reply := (op.perform (after LexerOp.perform ops fresh)).1
  match op with
  | .next => reply = .ok (.token none) ∨ ∃ e, reply = .error (.lexical e)
  | .close | .leave | .drain => True
  | .enter => False
  | .advance id => Started id (ops ++ [op]) fresh ∧ ∀ t, reply ≠ .ok (.token (some t))
  | .stop id | .iterate id _ | .screen id => Started id ops fresh
  | .cursor cursorOp => cursorOp.closes = true ∨ (cursorOp = .next ∧ reply = .ok (.char none))

theorem isOpen_of_releases {fresh : Shared} (hfresh : fresh.Steady) (h : Releases ops fresh op) :
    (op.perform (after LexerOp.perform ops fresh)).2.lexer.cursor.isOpen = false := by
  have hsteady := hfresh.after ops
  cases op with
  | next =>
    apply hsteady.isSealed.isOpen_next
    rcases h with hnone | ⟨e, he⟩
    · obtain ⟨t, hend, ht⟩ := Cursor.ok_of_mapAnswer (f := Reply.token) hnone
      cases ht
      exact .inl hend
    · exact .inr ⟨e, Cursor.error_of_mapAnswer (f := Reply.token) he⟩
  | close => exact Cursor.isOpen_close _
  | leave => exact Cursor.isOpen_close _
  | enter => exact h.elim
  | drain => exact isOpen_collect false _
  | advance id =>
    obtain ⟨hstarted, hreply⟩ := h
    by_cases hlive : (((after LexerOp.perform ops fresh).iterator id).phase ≠ .finished)
    · rcases advance_of_live_cases (hsteady.sound id) hlive with ⟨⟨t, ht⟩, -⟩ | hreleased
      · exact absurd ht (hreply t)
      · exact hreleased
    · -- It had ended before, and it had been started.
      rcases (happened_concat ops (.advance id) fresh).1 hstarted with hbefore | ⟨-, hlive'⟩
      · rcases resting_of_started hfresh.sound hbefore with hreleased | hsuspended
        · exact Cursor.kept_not_isOpen.onLexers.perform hsteady.sound _ hreleased
        · exact absurd (by simp [hsuspended]) hlive
      · exact absurd hlive' hlive
  | stop id => exact (resting_of_started hfresh.sound h).isOpen_close hsteady.sound
  | iterate id screened => exact (resting_of_started hfresh.sound h).isOpen_close hsteady.sound
  | screen id => exact (resting_of_started hfresh.sound h).isOpen_close hsteady.sound
  | cursor op =>
    rcases h with hcloses | ⟨rfl, hnone⟩
    · exact CursorOp.isOpen_perform_of_closes hcloses _
    · obtain ⟨c, hend, hc⟩ := Cursor.ok_of_mapAnswer (f := Reply.char) hnone
      cases hc
      exact Cursor.isOpen_next_of_none hend

/-- Let a session begin at the beginning of a stream, whatever the stream does.  It was released
    once if the cursor is closed, and never if it is not.  After it was released, and after a read
    that was the last one, it was not read any more.  The stream is released after every operation
    that has to release it, and stays so. -/
theorem released_once (script : List Read) (filename : String) (keepNewline : Bool)
    (ops : List LexerOp) :
    let fresh : Shared := ⟨.ofStream ⟨script, []⟩ filename keepNewline, []⟩
    let s := after LexerOp.perform ops fresh
    let stream := s.lexer.cursor.stream
    stream.closeCount = (if s.lexer.cursor.isOpen then 0 else 1) ∧
    (∀ later e earlier, stream.history = later ++ e :: earlier → e.isLast = true →
      ∀ r, .read r ∉ later) ∧
    (∀ op, Releases ops fresh op → (op.perform s).2.lexer.cursor.isOpen = false) ∧
    (s.lexer.cursor.isOpen = false →
      ∀ op : LexerOp, (op.perform s).2.lexer.cursor.isOpen = false) := by
  intro fresh s stream
  have hfresh : fresh.Steady := Shared.steady_ofStream _ filename keepNewline
  have hsound : s.Sound := (hfresh.after ops).sound
  have horderly : s.lexer.cursor.Orderly :=
    Cursor.kept_orderly.onLexers.after hfresh.sound ops (Cursor.orderly_fresh script filename)
  refine ⟨horderly.closeCount_eq, ?_, ?_, ?_⟩
  · intro later e earlier hhistory hlast r hr
    have hpairs := hhistory ▸ horderly.unread
    exact (List.pairwise_append.1 hpairs).2.2 _ hr e List.mem_cons_self hlast r rfl
  · intro op h
    exact isOpen_of_releases hfresh h
  · intro hreleased op
    exact Cursor.kept_not_isOpen.onLexers.perform hsound op hreleased

/-- A read is interrupted, an iterator is suspended and then closed, and the character that waits
    in the slot still makes a token. -/
theorem released_once_iterator :
    let script := Read.fault ⟨.runtime, "again"⟩ :: "a bc".toList.map .char
    let ops := [LexerOp.cursor .next, .iterate 0 true, .advance 0, .next, .screen 1]
    let fresh : Shared := ⟨.ofStream ⟨script, []⟩ "f" false, []⟩
    let s := after LexerOp.perform (ops ++ [.stop 0]) fresh
    Releases ops fresh (.stop 0) ∧ s.lexer.cursor.isOpen = false ∧
    s.lexer.cursor.stream.closeCount = 1 ∧
    (LexerOp.next.perform s).1 = .ok (.token (some ⟨.identifier, "b", ⟨"f", 1, 3⟩⟩)) ∧
    (LexerOp.next.perform s).2.lexer.cursor.isOpen = false := by
  intro script ops fresh s
  have hstop : Releases ops fresh (.stop 0) := by
    show Started 0 ops fresh
    decide +kernel
  have hs : s = ((LexerOp.stop 0).perform (after LexerOp.perform ops fresh)).2 :=
    after_concat ops (.stop 0) fresh
  obtain ⟨-, -, hreleases, -⟩ := released_once script "f" false ops
  have hreleased : s.lexer.cursor.isOpen = false := by
    rw [hs]
    exact hreleases _ hstop
  obtain ⟨hcount, -, -, hstays⟩ := released_once script "f" false (ops ++ [.stop 0])
  refine ⟨hstop, hreleased, ?_, by decide +kernel, hstays hreleased .next⟩
  exact hcount.trans (if_neg (Bool.eq_false_iff.1 hreleased))

end Session

end RpalLex
