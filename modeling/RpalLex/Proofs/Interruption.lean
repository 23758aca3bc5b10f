import RpalLex.Proofs.LastingFailure
import RpalLex.Proofs.Relocation
import RpalLex.Proofs.Stopped

/-! # Interrupted calls

  A read may be interrupted between any two characters, in the middle of a
  comment or of a string literal, or while a character is read for the second
  time.  The interruption is passed on through everything that is being read
  (`Forwards`), and what had been consumed by then is lost.

  Nothing else is left of the interrupted call.  The lexer goes on like a new
  one at the beginning of what is left of the stream, at the location behind
  the characters that are lost.  An iterator, though, releases the stream when
  it is interrupted.

  Main statements: `forwards_nextToken` (one token), `next_cases` (one call)
  and `interruption_passes`. -/

namespace RpalLex

open Alphabet

/-! ## §1. Interruptions of a stream -/

/-- The interruption that came of a read. -/
def Stream.Event.interruption? : Stream.Event → Option Fault
  | .read (.fault f) => if f.kind.endsReading then none else some f
  | _ => none

namespace Stream

/-- The reads of a stream that were interrupted, the newest first. -/
def interruptions (s : Stream) : List Fault := s.history.filterMap Event.interruption?

variable {s s' : Stream} {r : Read} {f : Fault}

@[simp] theorem interruptions_close : s.close.interruptions = s.interruptions := rfl

theorem interruptions_of_read (h : s.read = (r, s')) :
    s'.interruptions = (Event.interruption? (.read r)).toList ++ s.interruptions := by
  unfold interruptions
  rw [history_of_read h]
  cases hr : Event.interruption? (.read r) with
  | none => simp [hr]
  | some f => simp [hr]

/-- If at most one read was interrupted on the way, an interruption on the way is this one. -/
theorem eq_some_of_readBetween (f? : Option Fault)
    (hs : s'.interruptions = f?.toList ++ s.interruptions)
    (h : ReadBetween s s' (.fault f)) (hf : f.kind.endsReading = false) : f? = some f := by
  obtain ⟨events, hhistory, hmem⟩ := h
  have hnew : events.filterMap Event.interruption? = f?.toList := by
    unfold interruptions at hs
    rw [hhistory, List.filterMap_append] at hs
    exact List.append_cancel_right hs
  have hone : f ∈ f?.toList := by
    rw [← hnew, List.mem_filterMap]
    exact ⟨_, hmem, by simp [Event.interruption?, hf]⟩
  simpa using hone

end Stream

namespace Cursor

variable {σ α β : Type} {cur cur' cur1 : Cursor} {c : Char} {cs : List Char} {p : Problem}

@[simp] theorem interruptions_close (cur : Cursor) :
    cur.close.stream.interruptions = cur.stream.interruptions := by
  unfold close
  split
  · rfl
  · rfl

/-! ## §2. Passing characters -/

/-- What is to come from a cursor: the slot first, and then the stream. -/
def toCome (cur : Cursor) : List Read := cur.slot.toList.map .char ++ cur.stream.script

/-- The cursor delivers the characters, one with every `next`. -/
inductive Passes : Cursor → List Char → Cursor → Prop where
  | nil (cur : Cursor) : Passes cur [] cur
  | cons {cur cur1 cur' : Cursor} {c : Char} {cs : List Char} :
      cur.next = (.ok (some c), cur1) → Passes cur1 cs cur' → Passes cur (c :: cs) cur'

/-- What becomes of a cursor that has passed characters. -/
structure Passed (cur : Cursor) (cs : List Char) (cur' : Cursor) : Prop where
  toCome_eq : cur.toCome = cs.map .char ++ cur'.toCome
  place_eq : cur'.place = cur.place.advanceAll cs
  filename_eq : cur'.filename = cur.filename
  interruptions_eq : cur'.stream.interruptions = cur.stream.interruptions

theorem passed_of_next (h : cur.next = (.ok (some c), cur1)) : cur.Passed [c] cur1 := by
  have hdelivery := cur.delivery
  rw [h] at hdelivery
  cases hdelivery with
  | held hslot => exact ⟨by simp [toCome, hslot], rfl, rfl, rfl⟩
  | char hslot _ _ hread =>
    refine ⟨?_, rfl, rfl, Stream.interruptions_of_read hread⟩
    simp [toCome, hslot, Stream.script_of_read hread]

theorem Passes.passed (h : cur.Passes cs cur') : cur.Passed cs cur' := by
  induction h with
  | nil cur => exact ⟨rfl, rfl, rfl, rfl⟩
  | cons hnext _ ih =>
    have hone := passed_of_next hnext
    refine ⟨?_, ?_, ?_, ?_⟩
    · rw [hone.toCome_eq, ih.toCome_eq]
      rfl
    · rw [ih.place_eq, hone.place_eq]
      rfl
    · rw [ih.filename_eq, hone.filename_eq]
    · rw [ih.interruptions_eq, hone.interruptions_eq]

/-! ## §3. Whatever is read -/

/-- A reading that is interrupted comes to nothing else: the interruption is what it is answered,
    and the cursor stays where it was interrupted. -/
inductive Forwards (cur : Cursor) : Outcome Cursor α → Prop where
  | undisturbed {answer : Except Problem α} {cur' : Cursor} :
      cur'.stream.interruptions = cur.stream.interruptions → Forwards cur (answer, cur')
  | interrupted {cs : List Char} {f : Fault} {last cur' : Cursor} :
      cur.Passes cs last → last.next = (.error (.fault f), cur') →
      Forwards cur (.error (.fault f), cur')

variable {x : Outcome Cursor α}

theorem forwards_of_error (h : cur.next = (.error p, cur')) :
    Forwards cur ((.error p, cur') : Outcome Cursor α) := by
  have hdelivery := cur.delivery
  rw [h] at hdelivery
  cases hdelivery with
  | failedBefore => exact .undisturbed rfl
  | failed _ _ _ hread hf =>
    apply Forwards.undisturbed
    rw [interruptions_close, Stream.interruptions_of_read hread]
    simp [Stream.Event.interruption?, hf]
  | interrupted => exact .interrupted (.nil cur) h

theorem interruptions_of_next_none (h : cur.next = (.ok none, cur')) :
    cur'.stream.interruptions = cur.stream.interruptions := by
  have hdelivery := cur.delivery
  rw [h] at hdelivery
  cases hdelivery with
  | released => rfl
  | ended _ _ _ hread => rw [interruptions_close, Stream.interruptions_of_read hread]; rfl

/-- What comes after the first character. -/
theorem Forwards.cons (hnext : cur.next = (.ok (some c), cur1)) (h : Forwards cur1 x) :
    Forwards cur x := by
  cases h with
  | undisturbed hsame => exact .undisturbed (hsame.trans (passed_of_next hnext).interruptions_eq)
  | interrupted hpasses hlast => exact .interrupted (.cons hnext hpasses) hlast

theorem Forwards.mapAnswer (h : Forwards cur x) (f : α → β) : Forwards cur (x.mapAnswer f) := by
  cases h with
  | undisturbed hsame => exact .undisturbed hsame
  | interrupted hpasses hlast => exact .interrupted hpasses hlast

theorem interruptions_giveBack (c : Char) (cur : Cursor) :
    (cur.giveBack c).2.stream.interruptions = cur.stream.interruptions := by
  rcases giveBack_cases c cur with ⟨-, hback⟩ | ⟨held, -, hback⟩
  · rw [hback]
  · rw [hback]

/-- A character that is given back and read again is passed once. -/
theorem Forwards.of_giveBack (hnext : cur.next = (.ok (some c), cur1))
    (h : Forwards (cur1.giveBack c).2 x) : Forwards cur x := by
  have hagain := next_giveBack hnext
  -- Unless nothing was passed, the first character that was passed is the one given back.
  cases h with
  | undisturbed hsame =>
    apply Forwards.undisturbed
    rw [hsame, interruptions_giveBack, (passed_of_next hnext).interruptions_eq]
  | interrupted hpasses hlast =>
    cases hpasses with
    | nil =>
      rw [hagain] at hlast
      cases hlast
    | cons hfirst hrest =>
      rw [hagain] at hfirst
      cases hfirst
      exact .interrupted (.cons hnext hrest) hlast

theorem forwards_gather (rule : Rule σ α) (s : σ) (cur : Cursor) :
    Forwards cur (gather rule s cur) := by
  -- The induction goes along the loop; every round passes one character.
  fun_induction Cursor.gather rule s cur with
  | case1 s cur p cur' hnext => exact forwards_of_error hnext
  | case2 s cur cur' hnext => exact .undisturbed (interruptions_of_next_none hnext)
  | case3 s cur c cur' hnext s' hv ih => exact ih.cons hnext
  | case4 s cur c cur' hnext a hv => exact .undisturbed (passed_of_next hnext).interruptions_eq
  | case5 s cur c cur' hnext a hv =>
    apply Forwards.undisturbed
    exact (interruptions_giveBack c cur').trans (passed_of_next hnext).interruptions_eq
  | case6 s cur c cur' hnext context hv =>
    exact .undisturbed (passed_of_next hnext).interruptions_eq

theorem forwards_munch (accept : Char → Bool) (text : List Char) (cur : Cursor) :
    Forwards cur (cur.munch accept text) := forwards_gather _ _ _

theorem forwards_operator (keepNewline : Bool) (first : Char) (start : Location) (cur : Cursor) :
    Forwards cur (cur.operator keepNewline first start) := by
  unfold Cursor.operator
  rcases hnext : cur.next with ⟨p | _ | second, cur1⟩
  · exact forwards_of_error hnext
  · exact .undisturbed (interruptions_of_next_none hnext)
  · simp only
    split
    · exact ((forwards_gather _ _ _).mapAnswer _).cons hnext
    · -- The second character is only looked at, and the loop reads it again.
      have hback := giveBack_of_slot_none (slot_of_next hnext) second
      have hmunch := (forwards_munch isOperatorSymbol [first] (cur1.giveBack second).2).mapAnswer
        (tokenOf .operator start)
      rw [hback] at hmunch ⊢
      apply Forwards.of_giveBack hnext
      rw [hback]
      exact hmunch

theorem forwards_lexeme (keepNewline : Bool) (k : StartClass) (first : Char) (start : Location)
    (cur : Cursor) : Forwards cur (cur.lexeme keepNewline k first start) := by
  cases k with
  | letter => exact (forwards_munch _ _ _).mapAnswer _
  | digit => exact (forwards_munch _ _ _).mapAnswer _
  | operator => exact forwards_operator keepNewline first start cur
  | quote => exact (forwards_gather _ _ _).mapAnswer _
  | space => exact (forwards_munch _ _ _).mapAnswer _
  | punctuation =>
    show Forwards cur (cur.mark first start)
    unfold Cursor.mark
    split
    · exact .undisturbed rfl
    · exact .undisturbed rfl

theorem forwards_nextToken (keepNewline : Bool) (cur : Cursor) :
    Forwards cur (cur.nextToken keepNewline) := by
  unfold Cursor.nextToken
  rcases hnext : cur.next with ⟨p | _ | c, cur1⟩
  · exact forwards_of_error hnext
  · exact .undisturbed (interruptions_of_next_none hnext)
  · simp only
    split
    · exact ((forwards_lexeme _ _ _ _ _).mapAnswer some).cons hnext
    · exact .undisturbed (passed_of_next hnext).interruptions_eq

end Cursor

/-! ## §4. Calls -/

namespace Lexer

variable {lx lx' : Lexer} {f : Fault} {consumed : List Char} {rest : List Read} {ts : List Token}

/-- The next call consumes some characters, and then it is interrupted.  No token is counted and no
    error remembered, the stream is still held, and the cursor stands behind what was consumed with
    an empty slot. -/
structure Interrupted (f : Fault) (consumed : List Char) (rest : List Read) (lx : Lexer) :
    Prop where
  answer_eq : lx.next.1 = .error (.fault f)
  tokenCount_eq : lx.next.2.tokenCount = lx.tokenCount
  failure_eq : lx.next.2.failure = none
  cursor_failure_eq : lx.next.2.cursor.failure = none
  isOpen_eq : lx.next.2.cursor.isOpen = true
  slot_eq : lx.next.2.cursor.slot = none
  toCome_eq : lx.cursor.toCome = consumed.map .char ++ .fault f :: rest
  script_eq : lx.next.2.cursor.stream.script = rest
  location_eq : lx.next.2.cursor.location = lx.cursor.location.after consumed
  settings_eq : lx.next.2.cursor.filename = lx.cursor.filename ∧
    lx.next.2.keepNewline = lx.keepNewline

theorem interrupted_of_passes {cs : List Char} {last cur : Cursor} (hf : lx.failure = none)
    (htoken : lx.cursor.nextToken lx.keepNewline = (.error (.fault f), cur))
    (hpasses : lx.cursor.Passes cs last) (hlast : last.next = (.error (.fault f), cur)) :
    lx.Interrupted f cs cur.stream.script ∧
      lx.next.2.cursor.stream.interruptions = f :: lx.cursor.stream.interruptions := by
  have hpassed := hpasses.passed
  have hnext : lx.next = (.error (.fault f), { lx with cursor := cur, failure := none }) :=
    next_of_nextToken hf htoken
  -- Only a read that is interrupted is answered by a fault.
  have hdelivery := last.delivery
  rw [hlast] at hdelivery
  cases hdelivery with
  | @interrupted _ stream hslot hfailure hopen hread hkind =>
    refine ⟨?_, ?_⟩
    · exact {
        answer_eq := congrArg Prod.fst hnext
        tokenCount_eq := by rw [hnext]
        failure_eq := by rw [hnext]
        cursor_failure_eq := by rw [hnext]; exact hfailure
        isOpen_eq := by rw [hnext]; exact hopen
        slot_eq := by rw [hnext]; exact hslot
        toCome_eq := by
          rw [hpassed.toCome_eq, Cursor.toCome, hslot,
            Stream.script_of_read hread (by simp)]
          rfl
        script_eq := by rw [hnext]
        location_eq := by
          rw [hnext]
          show last.place.inFile last.filename = _
          rw [hpassed.place_eq, hpassed.filename_eq, Place.inFile_advanceAll]
          rfl
        settings_eq := by
          rw [hnext]
          exact ⟨hpassed.filename_eq, rfl⟩ }
    · rw [hnext, ← hpassed.interruptions_eq]
      show stream.interruptions = _
      rw [Stream.interruptions_of_read hread]
      simp [Stream.Event.interruption?, hkind]

/-- A call is interrupted once or not at all. -/
theorem next_cases (lx : Lexer) :
    (∃ f consumed rest, lx.Interrupted f consumed rest ∧
      lx.next.2.cursor.stream.interruptions = f :: lx.cursor.stream.interruptions) ∨
    lx.next.2.cursor.stream.interruptions = lx.cursor.stream.interruptions := by
  cases hf : lx.failure with
  | some e =>
    rw [next_of_failure hf]
    exact .inr rfl
  | none =>
    have hforwards := Cursor.forwards_nextToken lx.keepNewline lx.cursor
    rcases htoken : lx.cursor.nextToken lx.keepNewline with ⟨answer, cur⟩
    rw [htoken] at hforwards
    cases hforwards with
    | undisturbed hsame =>
      right
      rw [next_of_nextToken hf htoken, ← hsame]
      show (if _ then cur.close else cur).stream.interruptions = _
      split
      · exact cur.interruptions_close
      · rfl
    | interrupted hpasses hlast =>
      left
      exact ⟨_, _, _, interrupted_of_passes hf htoken hpasses hlast⟩

theorem interruptions_of_next_token {t : Token} (h : lx.next = (.ok (some t), lx')) :
    lx'.cursor.stream.interruptions = lx.cursor.stream.interruptions := by
  rcases lx.next_cases with ⟨f, consumed, rest, hinterrupted, -⟩ | hsame
  · have hanswer := hinterrupted.answer_eq
    rw [h] at hanswer
    cases hanswer
  · rwa [h] at hsame

/-- Calls that bring tokens are not interrupted. -/
theorem Delivers.interruptions_eq (h : lx.Delivers ts lx') :
    lx'.cursor.stream.interruptions = lx.cursor.stream.interruptions := by
  induction h with
  | nil lx => rfl
  | cons hnext _ ih => rw [ih, interruptions_of_next_token hnext]

/-- After an interrupted call the lexer is like a new one, moved to where the call left off. -/
theorem Interrupted.moved (h : lx.Interrupted f consumed rest) :
    (ofStream ⟨rest, []⟩ lx.cursor.filename lx.keepNewline).Moved lx.next.2.cursor.location
      lx.next.2 where
  keepNewline_eq := h.settings_eq.2
  failure_eq := h.failure_eq
  cursor := {
    filename_eq := h.settings_eq.1
    script_eq := h.script_eq
    isOpen_eq := h.isOpen_eq
    slot_eq := h.slot_eq
    failure_eq := h.cursor_failure_eq
    location_eq := by
      have hstart := Location.shift_start lx.next.2.cursor.location
      rw [← h.settings_eq.1]
      exact hstart.symm
    line_le := Int.le_refl 1 }

/-! ## §5. Iterations -/

/-- Some calls bring tokens, the next one is interrupted, and then the stream is released. -/
def InterruptedAfter (f : Fault) (lx lx' : Lexer) : Prop :=
  ∃ skipped last consumed rest, lx.Delivers skipped last ∧ last.Interrupted f consumed rest ∧
    lx' = last.next.2.close

/-- Calls that bring tokens and then one that ends an iteration. -/
theorem close_cases {last : Lexer} {problem : Option Problem} (hrun : lx.Delivers ts last)
    (hending : last.next.1 = ending problem) :
    (∃ f, problem = some (.fault f) ∧ lx.InterruptedAfter f last.next.2.close ∧
      last.next.2.close.cursor.stream.interruptions = f :: lx.cursor.stream.interruptions) ∨
    last.next.2.close.cursor.stream.interruptions = lx.cursor.stream.interruptions := by
  have hclose : last.next.2.close.cursor.stream.interruptions =
      last.next.2.cursor.stream.interruptions := Cursor.interruptions_close _
  rw [hclose, ← hrun.interruptions_eq]
  rcases last.next_cases with ⟨f, consumed, rest, hinterrupted, hnew⟩ | hsame
  · left
    refine ⟨f, ?_, ⟨ts, last, consumed, rest, hrun, hinterrupted, rfl⟩, hnew⟩
    have hanswer := hinterrupted.answer_eq
    rw [hending] at hanswer
    cases problem with
    | none => cases hanswer
    | some p =>
      cases hanswer
      rfl
  · exact .inr hsame

theorem pull_cases (screened : Bool) (lx : Lexer) :
    (∃ f, (lx.pull screened).1 = .error (.fault f) ∧
      lx.InterruptedAfter f (lx.pull screened).2 ∧
      (lx.pull screened).2.cursor.stream.interruptions = f :: lx.cursor.stream.interruptions) ∨
    (lx.pull screened).2.cursor.stream.interruptions = lx.cursor.stream.interruptions := by
  obtain ⟨skipped, last, hskipped, -, hlast⟩ := exists_pull screened lx
  rcases hlast with ⟨t, hnext, -, hpull⟩ | ⟨problem, hnext, hpull⟩
  · right
    rw [hpull, ← hskipped.interruptions_eq]
    exact interruptions_of_next_token (Prod.ext hnext rfl)
  · rw [hpull]
    rcases close_cases hskipped hnext with ⟨f, rfl, hafter, hnew⟩ | hsame
    · exact .inl ⟨f, rfl, hafter, hnew⟩
    · exact .inr hsame

theorem collect_cases (screened : Bool) (lx : Lexer) :
    (∃ f, (lx.collect screened).result = .error (.fault f) ∧
      lx.InterruptedAfter f (lx.collect screened).lexer ∧
      (lx.collect screened).lexer.cursor.stream.interruptions =
        f :: lx.cursor.stream.interruptions) ∨
    (lx.collect screened).lexer.cursor.stream.interruptions =
      lx.cursor.stream.interruptions := by
  obtain ⟨ts, problem, last, hdelivers, hending⟩ := Lexer.exists_finishes lx
  rw [hdelivers.collect hending screened]
  rcases close_cases hdelivers hending with ⟨f, rfl, hafter, hnew⟩ | hsame
  · exact .inl ⟨f, rfl, hafter, hnew⟩
  · exact .inr hsame

/-- The release leaves nothing to come. -/
theorem InterruptedAfter.spent (h : lx.InterruptedAfter f lx') : lx'.Spent none := by
  obtain ⟨skipped, last, consumed, rest, -, hinterrupted, rfl⟩ := h
  refine spent_of_failure_none hinterrupted.failure_eq ⟨?_, Cursor.isOpen_close _, ?_⟩
  · exact (Cursor.failure_close _).trans hinterrupted.cursor_failure_eq
  · exact (Cursor.slot_close _).trans hinterrupted.slot_eq

end Lexer

namespace Session

open Lexer

/-! ## §6. Sessions -/

/-- Does an iterator make the calls? -/
def LexerOp.iterates : LexerOp → Bool
  | .drain | .advance _ => true
  | _ => false

variable {s : Shared} {f : Fault}

/-- An iteration is interrupted once or not at all. -/
theorem LexerOp.iterates_cases (hs : s.Sound) {op : LexerOp} (hop : op.iterates = true) :
    (∃ f, (op.perform s).1 = .error (.fault f) ∧
      s.lexer.InterruptedAfter f (op.perform s).2.lexer ∧
      (op.perform s).2.lexer.cursor.stream.interruptions =
        f :: s.lexer.cursor.stream.interruptions) ∨
    (op.perform s).2.lexer.cursor.stream.interruptions =
      s.lexer.cursor.stream.interruptions := by
  have heffect := hs.effect op
  generalize (op.perform s).1 = reply, (op.perform s).2.lexer = lx at heffect ⊢
  cases heffect with
  | call => cases hop
  | drain =>
    rcases collect_cases false s.lexer with ⟨f, hresult, hafter, hnew⟩ | hsame
    · exact .inl ⟨f, by rw [hresult]; rfl, hafter, hnew⟩
    · exact .inr hsame
  | pull =>
    rcases pull_cases _ s.lexer with ⟨f, hanswer, hafter, hnew⟩ | hsame
    · exact .inl ⟨f, by rw [hanswer]; rfl, hafter, hnew⟩
    · exact .inr hsame
  | ended => exact .inr rfl
  | quiet => exact .inr rfl
  | release => exact .inr (Cursor.interruptions_close _)
  | cursor => cases hop

/-- Let a read be interrupted during a call, in any state.  The interruption is what the call is
    answered; no token is counted and no error remembered, the stream is held, the slot is empty,
    and the location is the one behind the characters that the call had consumed, which are those
    in front of the interruption.  From then on every call is answered like that of a new lexer
    over the rest of the stream, with the locations shifted.

    If an iteration made the call, it is answered by the interruption as well, and the stream is
    released; as long as nothing is given back, every later call reports the end. -/
theorem interruption_passes (s : Shared) (hs : s.Sound) (f : Fault)
    (hkind : f.kind.endsReading = false) :
    let lx := s.lexer
    (lx.cursor.stream.ReadBetween lx.next.2.cursor.stream (.fault f) →
      ∃ consumed rest, lx.Interrupted f consumed rest ∧
        ∀ n, (lx.next.2.afterCalls n).next.1 = shiftAnswer lx.next.2.cursor.location
          ((ofStream ⟨rest, []⟩ lx.cursor.filename lx.keepNewline).afterCalls n).next.1) ∧
    ∀ op : LexerOp, op.iterates = true →
      lx.cursor.stream.ReadBetween (op.perform s).2.lexer.cursor.stream (.fault f) →
      (op.perform s).1 = .error (.fault f) ∧ lx.InterruptedAfter f (op.perform s).2.lexer ∧
      (op.perform s).2.lexer.cursor.isOpen = false ∧
      ∀ later, (∀ c, .cursor (.giveBack c) ∉ later) →
        (LexerOp.next.perform (after LexerOp.perform later (op.perform s).2)).1 =
          .ok (.token none) := by
  intro lx
  refine ⟨?_, ?_⟩
  · -- A call is interrupted at most once, so this was the interruption.
    intro hread
    rcases lx.next_cases with ⟨f', consumed, rest, hinterrupted, hnew⟩ | hsame
    · have hone := Stream.eq_some_of_readBetween (some f') hnew hread hkind
      obtain rfl : f' = f := by simpa using hone
      exact ⟨consumed, rest, hinterrupted, hinterrupted.moved.answer_afterCalls⟩
    · have hnone := Stream.eq_some_of_readBetween none hsame hread hkind
      cases hnone
  · -- So it is with an iteration, however many calls it makes.
    intro op hop hread
    rcases LexerOp.iterates_cases hs hop with ⟨f', hreply, hafter, hnew⟩ | hsame
    · have hone := Stream.eq_some_of_readBetween (some f') hnew hread hkind
      obtain rfl : f' = f := by simpa using hone
      have hspent := hafter.spent
      refine ⟨hreply, hafter, hspent.isOpen_eq, ?_⟩
      intro later hlater
      have hlexer := hspent.lexer_after (hs.perform op) later hlater
      rw [← hlexer] at hspent
      exact hspent.reply
    · have hnone := Stream.eq_some_of_readBetween none hsame hread hkind
      cases hnone

/-- White space that begins with a character from the slot is interrupted behind its line feed:
    the next token is found in the next line.  An iteration over the same stream stops there. -/
theorem interruption_passes_line_feed :
    let stop : Fault := ⟨.runtime, "stop"⟩
    let script : List Read := [.char 'a', .char ' ', .char '\n', .fault stop, .char 'b']
    let s := after LexerOp.perform [.next] ⟨.ofStream ⟨script, []⟩ "f" false, []⟩
    let lx := s.lexer.next.2
    let u := (LexerOp.drain.perform s).2
    s.lexer.cursor.slot = some ' ' ∧ s.lexer.next.1 = .error (.fault stop) ∧
    lx.tokenCount = 1 ∧ lx.cursor.isOpen = true ∧ lx.cursor.location = ⟨"f", 2, 1⟩ ∧
    lx.next.1 = .ok (some ⟨.identifier, "b", ⟨"f", 2, 1⟩⟩) ∧
    (LexerOp.drain.perform s).1 = .error (.fault stop) ∧
    (LexerOp.next.perform (after LexerOp.perform [.iterate 0 true, .advance 0] u)).1 =
      .ok (.token none) := by
  intro stop script s lx u
  have hsound : s.Sound := (Shared.sound_fresh _).after [.next]
  obtain ⟨hcall, hiteration⟩ := interruption_passes s hsound stop rfl
  obtain ⟨consumed, rest, hinterrupted, hlater⟩ :=
    hcall ⟨[.read (.fault stop), .read (.char '\n')], by decide +kernel, by simp⟩
  obtain ⟨hreply, -, -, hended⟩ := hiteration .drain rfl
    ⟨[.close, .read (.fault stop), .read (.char '\n')], by decide +kernel, by simp⟩
  have hrest : rest = [.char 'b'] := hinterrupted.script_eq.symm.trans (by decide +kernel)
  refine ⟨by decide +kernel, hinterrupted.answer_eq, ?_, hinterrupted.isOpen_eq,
    by decide +kernel, ?_, hreply, hended _ (by simp)⟩
  · exact hinterrupted.tokenCount_eq.trans (by decide +kernel)
  · rw [hrest] at hlater
    exact (hlater 0).trans (by decide +kernel)

end Session

end RpalLex
