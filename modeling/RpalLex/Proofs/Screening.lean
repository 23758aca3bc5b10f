import RpalLex.Proofs.Sessions

/-! # Two ways to screen

  A direct iterator that screens and a screening iterator are made at the
  same moment of two sessions, and from then on the same is asked of both.
  The sessions cannot be told apart (`Shared.Twins.perform`, one operation;
  `Shared.Twins.play`, all of them), although one iterator skips while it
  pulls and the other one has an iterator of its own beneath it, which must
  be started, finished and closed with it.

  Main statements: `play_advance_to_end` (what an iterator delivers that is
  asked to the end) and `iterate_screened_eq_screen`. -/

namespace RpalLex

/-! ## §1. Twins -/

/-- The iterators are the same, or they are equally far and screen alike. -/
def TokenIterator.Twins (it it' : TokenIterator) : Prop :=
  it = it' ∨ it.Sound ∧ it'.Sound ∧ it.phase = it'.phase ∧ it.screens = it'.screens

namespace TokenIterator.Twins

variable {it it' : TokenIterator}

theorem next (h : it.Twins it') (lx : Lexer) :
    (it.next lx).1 = (it'.next lx).1 ∧ (it.next lx).2.2 = (it'.next lx).2.2 ∧
      (it.next lx).2.1.Twins (it'.next lx).2.1 := by
  rcases h with rfl | ⟨hs, hs', hphase, hscreens⟩
  · exact ⟨rfl, rfl, .inl rfl⟩
  · by_cases hfinished : it.phase = .finished
    · have hfinished' : it'.phase = .finished := by rw [← hphase, hfinished]
      rw [next_of_finished hfinished, next_of_finished hfinished']
      exact ⟨rfl, rfl, .inr ⟨hs, hs', hphase, hscreens⟩⟩
    · have hlive' : it'.phase ≠ .finished := by rwa [← hphase]
      obtain ⟨it1, hnext, hs1, hscreens1, hphase1⟩ := next_of_live hs hfinished lx
      obtain ⟨it1', hnext', hs1', hscreens1', hphase1'⟩ := next_of_live hs' hlive' lx
      rw [hnext, hnext', hscreens]
      refine ⟨rfl, rfl, .inr ⟨hs1, hs1', ?_, ?_⟩⟩
      · rw [hphase1, hphase1', hscreens]
      · rw [hscreens1, hscreens1', hscreens]

theorem close (h : it.Twins it') (lx : Lexer) :
    (it.close lx).2 = (it'.close lx).2 ∧ (it.close lx).1.Twins (it'.close lx).1 := by
  rcases h with rfl | ⟨hs, hs', hphase, hscreens⟩
  · exact ⟨rfl, .inl rfl⟩
  · obtain ⟨hlexer, hs1, hscreens1, hphase1⟩ := hs.close lx
    obtain ⟨hlexer', hs1', hscreens1', hphase1'⟩ := hs'.close lx
    refine ⟨?_, .inr ⟨hs1, hs1', ?_, ?_⟩⟩
    · rw [hlexer, hlexer', hphase]
    · rw [hphase1, hphase1']
    · rw [hscreens1, hscreens1', hscreens]

end TokenIterator.Twins

/-! ## §2. Two sessions side by side -/

namespace Session

/-- One lexer in two sessions, with twins under every number. -/
structure Shared.Twins (s s' : Shared) : Prop where
  lexer_eq : s.lexer = s'.lexer
  iterators : ∀ id, (s.iterator id).Twins (s'.iterator id)

/-- What can be seen of an operation: its reply, and the lexer after it. -/
def seen (r : Outcome Shared Reply) : Except Problem Reply × Lexer := (r.1, r.2.lexer)

namespace Shared.Twins

variable {s s' : Shared}

theorem put (h : s.Twins s') (id : Nat) {it it' : TokenIterator} (hit : it.Twins it') :
    (s.put id it).Twins (s'.put id it') where
  lexer_eq := h.lexer_eq
  iterators := by
    intro id'
    rw [iterator_put_eq, iterator_put_eq]
    split
    · exact hit
    · exact h.iterators id'

/-- The lexer is replaced, and the iterators stay. -/
theorem withLexer (h : s.Twins s') {lx lx' : Lexer} (hlx : lx = lx') :
    Twins { s with lexer := lx } { s' with lexer := lx' } :=
  ⟨hlx, h.iterators⟩

theorem make (h : s.Twins s') (id : Nat) {it it' : TokenIterator} (hit : it.Twins it') :
    (s.make id it).Twins (s'.make id it') := by
  have hclose := ((h.iterators id).close s.lexer).1
  rw [h.lexer_eq] at hclose
  unfold Shared.make
  rw [h.lexer_eq]
  exact (h.withLexer hclose).put id hit

/-- An operation gets the same reply in both sessions, and leaves them as alike as they were. -/
theorem perform (h : s.Twins s') (op : LexerOp) :
    (op.perform s).1 = (op.perform s').1 ∧ (op.perform s).2.Twins (op.perform s').2 := by
  obtain ⟨lx, its⟩ := s
  obtain ⟨lx', its'⟩ := s'
  obtain rfl : lx = lx' := h.lexer_eq
  cases op with
  | next => exact ⟨rfl, h.withLexer rfl⟩
  | close => exact ⟨rfl, h.withLexer rfl⟩
  | enter => exact ⟨rfl, h⟩
  | leave => exact ⟨rfl, h.withLexer rfl⟩
  | drain => exact ⟨rfl, h.withLexer rfl⟩
  | iterate id screened => exact ⟨rfl, h.make id (.inl rfl)⟩
  | screen id => exact ⟨rfl, h.make id (.inl rfl)⟩
  | advance id =>
    obtain ⟨hreply, hafter, hit⟩ := (h.iterators id).next lx
    exact ⟨congrArg (Except.map delivered) hreply, (h.withLexer hafter).put id hit⟩
  | stop id =>
    obtain ⟨hafter, hit⟩ := (h.iterators id).close lx
    exact ⟨rfl, (h.withLexer hafter).put id hit⟩
  | cursor op => exact ⟨rfl, h.withLexer rfl⟩

theorem play (h : s.Twins s') (ops : List LexerOp) :
    (play LexerOp.perform ops s).map seen = (play LexerOp.perform ops s').map seen := by
  induction ops generalizing s s' with
  | nil => rfl
  | cons op ops ih =>
    obtain ⟨hreply, hafter⟩ := h.perform op
    have hseen : seen (op.perform s) = seen (op.perform s') := Prod.ext hreply hafter.lexer_eq
    show seen (op.perform s) :: _ = seen (op.perform s') :: _
    rw [hseen, ih hafter]

end Shared.Twins

/-! ## §3. To the end -/

variable {s : Shared} {id : Nat} {ts passed : List Token} {problem : Option Problem}

/-- An iterator that is asked until it ends delivers what it passes of the run that was still to
    come, ends like it, and counts all of its tokens. -/
theorem play_advance_to_end (hs : (s.iterator id).Sound) (hlive : (s.iterator id).phase ≠ .finished)
    (hrun : s.lexer.Finishes ts problem)
    (hpassed : Token.passed (s.iterator id).screens ts = passed) :
    let asks := List.replicate (passed.length + 1) (LexerOp.advance id)
    (play LexerOp.perform asks s).map Prod.fst =
        passed.map (fun t => .ok (.token (some t))) ++ [(Lexer.ending problem).map delivered] ∧
      (after LexerOp.perform asks s).lexer.tokenCount = s.lexer.tokenCount + ts.length := by
  induction passed generalizing s ts with
  | nil =>
    obtain ⟨s', hadvance, hlexer, -⟩ := Shared.advance_of_live hs hlive
    obtain ⟨hpull, hcount⟩ := hrun.pull_of_passed_nil hpassed
    constructor
    · show [((LexerOp.advance id).perform s).1] = [_]
      rw [hadvance, hpull]
    · show ((LexerOp.advance id).perform s).2.lexer.tokenCount = _
      rw [hadvance, hlexer, hcount]
  | cons t us ih =>
    obtain ⟨s', hadvance, hlexer, hs', hscreens, hphase⟩ := Shared.advance_of_live hs hlive
    obtain ⟨rest, hpull, hrest, hus, hcount⟩ := hrun.pull_of_passed_cons hpassed
    -- The iterator that delivered a token is asked for the others.
    have hlive' : (s'.iterator id).phase ≠ .finished := by
      rw [hphase, hpull]
      simp [TokenIterator.Phase.after]
    rw [← hlexer] at hrest hcount
    rw [← hscreens] at hus
    obtain ⟨hreplies, hcounts⟩ := ih hs' hlive' hrest hus
    constructor
    · show ((LexerOp.advance id).perform s).1 :: _ = _
      rw [hadvance, hpull]
      exact congrArg _ hreplies
    · show (after LexerOp.perform _ ((LexerOp.advance id).perform s).2).lexer.tokenCount = _
      rw [hadvance]
      exact hcounts.trans hcount

/-- Let a direct iterator that screens be made in one session and a screening iterator in another
    one, in the same state and under the same number.  Whatever is asked afterwards, all replies
    and all states of the lexer are the same.  Asked to the end, either iterator delivers the
    tokens of the run that is to come except the discardable ones, ends like this run, and the
    discardable tokens are counted as well. -/
theorem iterate_screened_eq_screen (s : Shared) (id : Nat) :
    (∀ ops, (play LexerOp.perform (.iterate id true :: ops) s).map seen =
      (play LexerOp.perform (.screen id :: ops) s).map seen) ∧
    ∀ make, make = .iterate id true ∨ make = .screen id →
      let made := (LexerOp.perform make s).2
      ∃ ts problem, made.lexer.Finishes ts problem ∧
        let asks := List.replicate ((Token.screen ts).length + 1) (.advance id)
        (play LexerOp.perform asks made).map Prod.fst =
          (Token.screen ts).map (fun t => .ok (.token (some t))) ++
            [(Lexer.ending problem).map delivered] ∧
        (after LexerOp.perform asks made).lexer.tokenCount =
          made.lexer.tokenCount + ts.length := by
  constructor
  · intro ops
    have htwins : TokenIterator.Twins (.direct { screened := true }) (.screening {}) :=
      .inr ⟨trivial, ⟨rfl, fun _ => rfl⟩, rfl, rfl⟩
    have hsame : s.Twins s := ⟨rfl, fun _ => .inl rfl⟩
    have hmade := hsame.make id htwins
    have hseen :
        seen ((LexerOp.iterate id true).perform s) = seen ((LexerOp.screen id).perform s) := rfl
    show seen ((LexerOp.iterate id true).perform s) :: _ = seen ((LexerOp.screen id).perform s) :: _
    rw [hseen]
    exact congrArg _ (hmade.play ops)
  · intro make hmake made
    obtain ⟨ts, problem, hrun⟩ := Lexer.exists_finishes made.lexer
    refine ⟨ts, problem, hrun, ?_⟩
    have hmade : (made.iterator id).Sound ∧ (made.iterator id).phase ≠ .finished ∧
        (made.iterator id).screens = true := by
      rcases hmake with rfl | rfl
      · have hiterator : made.iterator id = .direct ⟨true, .fresh⟩ := Shared.iterator_put _ id _
        rw [hiterator]
        exact ⟨trivial, by simp [TokenIterator.phase], rfl⟩
      · have hiterator : made.iterator id = .screening ⟨⟨false, .fresh⟩, .fresh⟩ :=
          Shared.iterator_put _ id _
        rw [hiterator]
        exact ⟨⟨rfl, fun _ => rfl⟩, by simp [TokenIterator.phase], rfl⟩
    obtain ⟨hs, hlive, hscreens⟩ := hmade
    apply play_advance_to_end hs hlive hrun
    rw [hscreens, Token.passed_true]

end Session

end RpalLex
