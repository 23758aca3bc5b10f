import RpalLex.Proofs.ReadFailure
import RpalLex.Proofs.Stopped

/-! # The first error is final

  A lexer remembers the first lexical error that one of its calls reports,
  and nothing else (§2).  From then on it is *latched*: its stream has been
  released, every call reports the error again, and no operation changes the
  lexer any more.  Only what is asked of the cursor itself still reaches it,
  and the cursor has nothing to deliver except a character that is given
  back to it (§3, §4).

  Main statements: `failure_after` (what is remembered), `Latched.after` (no
  operation changes it) and `firstError_final`. -/

namespace RpalLex

/-! ## §1. Errors of calls -/

namespace Lexer

variable {lx lx' : Lexer} {e : LexError} {p : Problem} {screened : Bool}

/-- What a lexer remembers after an iteration is the error that the iteration reported. -/
theorem failure_collect_eq (screened : Bool) (lx : Lexer) :
    (lx.collect screened).lexer.failure = lexicalErrorOf (lx.collect screened).result := by
  obtain ⟨ts, problem, lx', hdelivers, hending⟩ := exists_finishes lx
  have hfailure := failure_next_eq lx'
  rw [hending] at hfailure
  rw [hdelivers.collect hending screened]
  cases problem with
  | none => exact hfailure
  | some p =>
    -- The problem is the same, but not the answer that comes with it.
    cases p with
    | lexical e => exact hfailure
    | fault f => exact hfailure
    | slotFull held given => exact hfailure
    | notPunctuation c => exact hfailure

/-- An error that is remembered is reported by every call, pull and iteration. -/
theorem answers_of_failure (hf : lx.failure = some e) :
    lx.next.1 = .error (.lexical e) ∧ (∀ screened, (lx.pull screened).1 = .error (.lexical e)) ∧
      ∀ screened, (lx.collect screened).result = .error (.lexical e) := by
  have hnext : lx.next.1 = ending (some (.lexical e)) := congrArg Prod.fst (next_of_failure hf)
  refine ⟨hnext, ?_, ?_⟩
  · intro screened
    rw [pull_of_ending hnext]
    rfl
  · intro screened
    rw [(Delivers.nil lx).collect hnext]
    rfl

theorem kept_sealed : Kept Sealed where
  next := fun _ h => h.next
  close := fun lx _ => sealed_close lx
  cursor := fun op _ h hf => Cursor.kept_not_isOpen.perform op (h hf)

theorem slot_pull_of_error (hf : lx.failure = none) (h : (lx.pull screened).1 = .error p) :
    (lx.pull screened).2.cursor.slot = none := by
  obtain ⟨skipped, lx', hskipped, -, hlast⟩ := exists_pull screened lx
  rcases hlast with ⟨t, hnext, -, hpull⟩ | ⟨problem, hnext, hpull⟩
  · rw [hpull, hnext] at h
    cases h
  · rw [hpull] at h ⊢
    have hslot := slot_next_of_error (hskipped.failure_eq hf) (hnext.trans h)
    rwa [← Cursor.slot_close] at hslot

theorem slot_collect_of_error (hf : lx.failure = none)
    (h : (lx.collect screened).result = .error p) :
    (lx.collect screened).lexer.cursor.slot = none := by
  obtain ⟨ts, problem, lx', hdelivers, hending⟩ := exists_finishes lx
  rw [hdelivers.collect hending screened] at h ⊢
  cases problem with
  | none => cases h
  | some q =>
    have hslot := slot_next_of_error (hdelivers.failure_eq hf) hending
    rwa [← Cursor.slot_close] at hslot

end Lexer

namespace Session

open Lexer

variable {s : Shared} {op : LexerOp} {e : LexError}

/-! ## §2. What is remembered -/

/-- The lexical error that an operation reports of a call. -/
def LexerOp.reported (op : LexerOp) (s : Shared) : Option LexError :=
  if op.calls then lexicalErrorOf (op.perform s).1 else none

/-- The first lexical error that a session reports of a call. -/
def firstError : List LexerOp → Shared → Option LexError
  | [], _ => none
  | op :: ops, s => (op.reported s).or (firstError ops (op.perform s).2)

/-- An error that is reported is remembered if it is the first one, and nothing else is. -/
theorem failure_perform (hs : s.Sound) (op : LexerOp) :
    (op.perform s).2.lexer.failure = s.lexer.failure.or (op.reported s) := by
  -- A call reports what is remembered after it; and what was remembered before, it reports.
  have hreport : ∀ {answer : Except Problem Reply} {failure : Option LexError},
      failure = lexicalErrorOf answer →
      (∀ e, s.lexer.failure = some e → answer = .error (.lexical e)) →
      failure = s.lexer.failure.or (lexicalErrorOf answer) := by
    intro answer failure hfailure hkept
    cases hf : s.lexer.failure with
    | none => rw [Option.none_or, hfailure]
    | some e =>
      rw [hfailure, hkept e hf]
      rfl
  -- Without a call nothing is reported.
  have hsilent : op.calls = false → ∀ answer : Except Problem Reply,
      s.lexer.failure =
        s.lexer.failure.or (if op.calls then lexicalErrorOf answer else none) := by
    intro hcalls answer
    rw [hcalls, if_neg Bool.false_ne_true, Option.or_none]
  rw [LexerOp.reported]
  have heffect := hs.effect op
  generalize (op.perform s).1 = reply, (op.perform s).2.lexer = lx at heffect ⊢
  cases heffect with
  | call =>
    apply hreport
    · rw [failure_next_eq, lexicalErrorOf_map]
    · intro e hf
      rw [(answers_of_failure hf).1]
      rfl
  | drain =>
    apply hreport
    · rw [failure_collect_eq, lexicalErrorOf_map]
    · intro e hf
      rw [(answers_of_failure hf).2.2]
      rfl
  | pull =>
    apply hreport
    · rw [failure_pull_eq, lexicalErrorOf_map]
    · intro e hf
      rw [(answers_of_failure hf).2.1]
      rfl
  | ended => exact Option.or_none.symm
  | quiet hcalls => exact hsilent hcalls _
  | release hcalls => exact hsilent hcalls _
  | cursor => exact hsilent rfl _

/-- What is remembered is the first error that was reported. -/
theorem failure_after (hs : s.Sound) (ops : List LexerOp) :
    (after LexerOp.perform ops s).lexer.failure = s.lexer.failure.or (firstError ops s) := by
  induction ops generalizing s with
  | nil => exact Option.or_none.symm
  | cons op ops ih =>
    rw [after_cons, ih (hs.perform op), failure_perform hs op, firstError, Option.or_assoc]

/-! ## §3. Released streams -/

/-- A closed cursor with an empty slot delivers nothing. -/
theorem CursorOp.next_ne_char {cur : Cursor} (hslot : cur.slot = none)
    (hclosed : cur.isOpen = false) (c : Char) :
    (CursorOp.next.perform cur).1 ≠ .ok (.char (some c)) := by
  have hnext : cur.next = (.ok none, cur) ∨ ∃ p, cur.next = (.error p, cur) := by
    unfold Cursor.next
    rw [hslot]
    cases cur.failure with
    | none => exact .inl (by simp [hclosed])
    | some e => exact .inr ⟨_, rfl⟩
  rcases hnext with hend | ⟨p, herror⟩
  · rw [CursorOp.perform, hend, Outcome.mapAnswer_ok]
    simp
  · rw [CursorOp.perform, herror, Outcome.mapAnswer_error]
    simp

namespace Shared

/-- All iterators are sound, and an error is remembered only by a lexer that has released its
    stream. -/
structure Steady (s : Shared) : Prop where
  sound : s.Sound
  isSealed : s.lexer.Sealed

theorem steady_ofStream (stream : Stream) (filename : String) (keepNewline : Bool) :
    Steady ⟨.ofStream stream filename keepNewline, []⟩ where
  sound := sound_fresh _
  isSealed := fun hf => absurd rfl hf

theorem Steady.perform (h : s.Steady) (op : LexerOp) : (op.perform s).2.Steady where
  sound := h.sound.perform op
  isSealed := kept_sealed.perform h.sound op h.isSealed

theorem Steady.after (h : s.Steady) (ops : List LexerOp) :
    (Session.after LexerOp.perform ops s).Steady :=
  after_preserves (fun op _ hs => hs.perform op) ops h

end Shared

/-! ## §4. Latched lexers -/

/-- An error is remembered, the stream has been released, and a number of tokens was counted. -/
structure Latched (e : LexError) (n : Nat) (s : Shared) : Prop where
  steady : s.Steady
  failure_eq : s.lexer.failure = some e
  tokenCount_eq : s.lexer.tokenCount = n

namespace Latched

variable {n : Nat}

/-- Every call is answered by the error. -/
theorem stopped (h : Latched e n s) : s.lexer.Stopped (some (.lexical e)) where
  next_eq := next_of_failure h.failure_eq
  isOpen_eq := h.steady.isSealed (by simp [h.failure_eq])

/-- Every call reports the error, whoever makes it. -/
theorem replies (h : Latched e n s) :
    (LexerOp.next.perform s).1 = .error (.lexical e) ∧
      (LexerOp.drain.perform s).1 = .error (.lexical e) ∧
      ∀ id, (s.iterator id).phase ≠ .finished →
        ((LexerOp.advance id).perform s).1 = .error (.lexical e) := by
  refine ⟨?_, ?_, ?_⟩
  · show s.lexer.next.1.map Reply.token = _
    rw [h.stopped.next_eq]
    rfl
  · show (s.lexer.collect false).result.map Reply.tokens = _
    rw [h.stopped.collect_eq]
    rfl
  · intro id hlive
    obtain ⟨s', hadvance, -⟩ := Shared.advance_of_live (h.steady.sound id) hlive
    rw [hadvance, h.stopped.pull_eq]
    rfl

theorem perform (h : Latched e n s) (op : LexerOp) : Latched e n (op.perform s).2 := by
  by_cases hcursor : ∃ cursorOp, op = .cursor cursorOp
  · obtain ⟨cursorOp, rfl⟩ := hcursor
    exact ⟨h.steady.perform _, h.failure_eq, h.tokenCount_eq⟩
  · have hlexer := Shared.lexer_perform_of_stopped h.steady.sound h.stopped
      fun cursorOp heq => hcursor ⟨cursorOp, heq⟩
    exact ⟨h.steady.perform op, hlexer ▸ h.failure_eq, hlexer ▸ h.tokenCount_eq⟩

/-- No operation changes what a latched lexer remembers and has counted. -/
theorem after (h : Latched e n s) (ops : List LexerOp) :
    Latched e n (Session.after LexerOp.perform ops s) :=
  after_preserves (fun op _ hs => hs.perform op) ops h

/-- Nothing comes into an empty slot unless it is given back. -/
theorem slot_perform (h : Latched e n s) (hslot : s.lexer.cursor.slot = none)
    (hop : ∀ c, op ≠ .cursor (.giveBack c)) : (op.perform s).2.lexer.cursor.slot = none := by
  by_cases hcursor : ∃ cursorOp, op = .cursor cursorOp
  · obtain ⟨cursorOp, rfl⟩ := hcursor
    show (cursorOp.perform s.lexer.cursor).2.slot = none
    cases cursorOp with
    | next => exact Cursor.slot_next s.lexer.cursor
    | giveBack c => exact absurd rfl (hop c)
    | close => rw [← hslot]; exact Cursor.slot_close s.lexer.cursor
    | location => exact hslot
    | enter => exact hslot
    | leave => rw [← hslot]; exact Cursor.slot_close s.lexer.cursor
  · rw [Shared.lexer_perform_of_stopped h.steady.sound h.stopped
      fun cursorOp heq => hcursor ⟨cursorOp, heq⟩]
    exact hslot

theorem slot_after (h : Latched e n s) (hslot : s.lexer.cursor.slot = none) (ops : List LexerOp)
    (hops : ∀ c, .cursor (.giveBack c) ∉ ops) :
    (Session.after LexerOp.perform ops s).lexer.cursor.slot = none := by
  induction ops generalizing s with
  | nil => exact hslot
  | cons op ops ih =>
    obtain ⟨hop, hops⟩ := not_giveBack_cons hops
    exact ih (h.perform op) (h.slot_perform hslot hop) hops

end Latched

/-- When an error is reported for the first time, the slot is empty. -/
theorem slot_perform_of_reported (hs : s.Sound) (hf : s.lexer.failure = none)
    (h : op.reported s = some e) : (op.perform s).2.lexer.cursor.slot = none := by
  have hsilent : ∀ {answer : Except Problem Reply}, op.calls = false →
      (if op.calls then lexicalErrorOf answer else none) ≠ some e := by
    intro answer hcalls
    simp [hcalls]
  rw [LexerOp.reported] at h
  have heffect := hs.effect op
  generalize (op.perform s).1 = reply, (op.perform s).2.lexer = lx at heffect h ⊢
  cases heffect with
  | call =>
    have he : lexicalErrorOf (s.lexer.next.1.map Reply.token) = some e := h
    rw [lexicalErrorOf_map] at he
    exact slot_next_of_error hf (lexicalErrorOf_eq_some_iff.1 he)
  | drain =>
    have he : lexicalErrorOf ((s.lexer.collect false).result.map Reply.tokens) = some e := h
    rw [lexicalErrorOf_map] at he
    exact slot_collect_of_error hf (lexicalErrorOf_eq_some_iff.1 he)
  | @pull id =>
    have he : lexicalErrorOf ((s.lexer.pull (s.iterator id).screens).1.map delivered) = some e := h
    rw [lexicalErrorOf_map] at he
    exact slot_pull_of_error hf (lexicalErrorOf_eq_some_iff.1 he)
  | ended => cases h
  | quiet hcalls => exact absurd h (hsilent hcalls)
  | release hcalls => exact absurd h (hsilent hcalls)
  | cursor => exact absurd h (hsilent rfl)

/-! ## §5. The first error -/

/-- Let a session begin at the beginning of a stream, whatever the stream does.  What the lexer
    remembers is the first lexical error that a call reported.  Once there is one, every later call
    reports it, made directly or by an iterator that has not ended; the count of tokens stays, and
    so does the release of the stream.  When the error is reported, the slot is empty, so until a
    character is given back the cursor delivers none.  An operation that reports no lexical error
    of a call changes nothing in what is remembered. -/
theorem firstError_final (stream : Stream) (filename : String) (keepNewline : Bool)
    (ops : List LexerOp) :
    let fresh : Shared := ⟨.ofStream stream filename keepNewline, []⟩
    let s := after LexerOp.perform ops fresh
    (∀ e, firstError ops fresh = some e → ∀ later,
      let u := after LexerOp.perform later s
      (LexerOp.next.perform u).1 = .error (.lexical e) ∧
      (LexerOp.drain.perform u).1 = .error (.lexical e) ∧
      (∀ id, (u.iterator id).phase ≠ .finished →
        ((LexerOp.advance id).perform u).1 = .error (.lexical e)) ∧
      u.lexer.tokenCount = s.lexer.tokenCount ∧ u.lexer.cursor.isOpen = false) ∧
    (firstError ops fresh = none → ∀ (op : LexerOp) e, op.reported s = some e →
      (op.perform s).2.lexer.cursor.slot = none ∧
      ∀ later, (∀ c, .cursor (.giveBack c) ∉ later) → ∀ c,
        ((LexerOp.cursor .next).perform (after LexerOp.perform later (op.perform s).2)).1 ≠
          .ok (.char (some c))) ∧
    s.lexer.failure = firstError ops fresh ∧
    ∀ op : LexerOp, op.reported s = none → (op.perform s).2.lexer.failure = s.lexer.failure := by
  intro fresh s
  have hsteady : s.Steady := (Shared.steady_ofStream stream filename keepNewline).after ops
  have hfailure : s.lexer.failure = firstError ops fresh :=
    failure_after (Shared.sound_fresh _) ops
  refine ⟨?_, ?_, hfailure, ?_⟩
  · intro e he later u
    have hlatched : Latched e s.lexer.tokenCount s := ⟨hsteady, hfailure.trans he, rfl⟩
    have hlater : Latched e s.lexer.tokenCount u := hlatched.after later
    obtain ⟨hnext, hdrain, hadvance⟩ := hlater.replies
    exact ⟨hnext, hdrain, hadvance, hlater.tokenCount_eq, hlater.stopped.isOpen_eq⟩
  · intro hnone op e he
    have hslot := slot_perform_of_reported hsteady.sound (hfailure.trans hnone) he
    refine ⟨hslot, ?_⟩
    intro later hlater c
    have hlatched : Latched e (op.perform s).2.lexer.tokenCount (op.perform s).2 := by
      refine ⟨hsteady.perform op, ?_, rfl⟩
      rw [failure_perform hsteady.sound, hfailure, hnone, he]
      rfl
    have hclosed := (hlatched.after later).stopped.isOpen_eq
    have hempty := hlatched.slot_after hslot later hlater
    exact CursorOp.next_ne_char hempty hclosed c
  · intro op hop
    rw [failure_perform hsteady.sound, hop, Option.or_none]

/-- Behind the backslash of an open literal stands a carriage return, which is peeked at, given back
    and then found to be invalid.  A character that is given back after that comes out again, and
    every call still reports the carriage return. -/
theorem firstError_final_given_back :
    let fresh : Shared := ⟨.ofStream ⟨"'\\\r".toList.map .char, []⟩ "f" false, []⟩
    let s := after LexerOp.perform [.iterate 0 true, .advance 0] fresh
    let u := after LexerOp.perform [.cursor (.giveBack 'z'), .screen 1] s
    let e := LexError.invalidCharacter '\r' (some ⟨"f", 1, 3⟩) (some "string literal")
    firstError [.iterate 0 true, .advance 0] fresh = some e ∧
    s.lexer.cursor.slot = none ∧
    ((LexerOp.cursor .next).perform u).1 = .ok (.char (some 'z')) ∧
    (LexerOp.next.perform u).1 = .error (.lexical e) ∧
    ((LexerOp.advance 1).perform u).1 = .error (.lexical e) ∧
    u.lexer.tokenCount = s.lexer.tokenCount := by
  intro fresh s u e
  have he : firstError [.iterate 0 true, .advance 0] fresh = some e := by decide +kernel
  obtain ⟨hfinal, -⟩ := firstError_final ⟨"'\\\r".toList.map .char, []⟩ "f" false
    [.iterate 0 true, .advance 0]
  obtain ⟨-, hslot, -⟩ := firstError_final ⟨"'\\\r".toList.map .char, []⟩ "f" false
    [.iterate 0 true]
  obtain ⟨hnext, -, hadvance, hcount, -⟩ := hfinal e he [.cursor (.giveBack 'z'), .screen 1]
  refine ⟨he, ?_, by decide +kernel, hnext, hadvance 1 (by decide +kernel), hcount⟩
  exact (hslot (by decide +kernel) (.advance 0) e (by decide +kernel)).1

end Session

end RpalLex
