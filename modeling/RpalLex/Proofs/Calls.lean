import RpalLex.Proofs.Delivery
import RpalLex.Proofs.Iteration
import RpalLex.Proofs.LongerStream

/-! # Calls over any stream

  What a call of the lexer does is said here without a word about the text:
  the stream may deliver anything, fail, or be interrupted, and the cursor
  may be in any state, even closed or with a character in its slot.

  * A call without an error to remember counts the token that it brings and
    remembers the error that it reports, and nothing else (`next_of_nextToken`).
  * When it reports the end or an error, the stream has been released, and
    after any problem the slot is empty (§1, §2).
  * A pull makes calls until one brings a token that is not to be skipped, or
    brings none (`exists_pull`), so in a run that finishes it is known what
    the next pull delivers (`Finishes.pull`).

  Main statements: `slot_nextToken_of_error`, `next_of_nextToken`,
  `Sealed.isOpen_next`, `exists_pull` and `Finishes.pull`. -/

namespace RpalLex

open Alphabet

/-! ## §1. What reading leaves behind -/

namespace Cursor

variable {σ α : Type} {cur cur' : Cursor} {p : Problem}

/-- The end is reported by a cursor that is closed. -/
theorem isOpen_next_of_none (h : cur.next.1 = .ok none) : cur.next.2.isOpen = false := by
  have hdelivery := cur.delivery
  generalize cur.next = r at h hdelivery ⊢
  cases hdelivery with
  | held => cases h
  | failedBefore => cases h
  | released _ _ hclosed => exact hclosed
  | char => cases h
  | ended => exact isOpen_close _
  | failed => cases h
  | interrupted => cases h

/-- A closed cursor stays closed, whatever comes from its slot. -/
theorem preserved_not_isOpen : Preserved fun cur => cur.isOpen = false where
  next := by
    intro cur h
    have hdelivery := cur.delivery
    generalize cur.next = r at hdelivery ⊢
    cases hdelivery with
    | held => exact h
    | failedBefore => exact h
    | released => exact h
    | char => exact h
    | ended => exact isOpen_close _
    | failed => exact isOpen_close _
    | interrupted => exact h
  giveBack := by
    intro c cur h
    rcases giveBack_cases c cur with ⟨-, hback⟩ | ⟨held, -, hback⟩
    · rw [hback]
      exact h
    · rw [hback]
      exact h

/-- A character that was just read finds the slot empty when it is given back. -/
theorem giveBack_next {answer : Except Problem (Option Char)} (h : cur.next = (answer, cur'))
    (c : Char) : (cur'.giveBack c).1 = .ok () := by
  rw [giveBack_of_slot_none (slot_of_next h)]

/-- Every problem of a lexeme comes right after a read, which empties the slot. -/
theorem slot_gather_of_error {rule : Rule σ α} {s : σ} (h : (gather rule s cur).1 = .error p) :
    (gather rule s cur).2.slot = none := by
  fun_induction Cursor.gather rule s cur with
  | case1 s cur q cur' hnext => exact slot_of_next hnext
  | case2 s cur cur' hnext => exact slot_of_next hnext
  | case3 s cur c cur' hnext s' hv ih => exact ih h
  | case4 s cur c cur' hnext a hv => cases h
  | case5 s cur c cur' hnext a hv =>
    have hback : (cur'.stopBefore c a).1 = .ok a := by
      rw [stopBefore, Outcome.mapAnswer, giveBack_next hnext]
      rfl
    rw [hback] at h
    cases h
  | case6 s cur c cur' hnext context hv => exact slot_of_next hnext

theorem error_of_mapAnswer {σ α β : Type} {f : α → β} {r : Outcome σ α}
    (h : (r.mapAnswer f).1 = .error p) : r.1 = .error p := by
  obtain ⟨answer, s⟩ := r
  cases answer with
  | error q =>
    cases h
    rfl
  | ok a => cases h

theorem ok_of_mapAnswer {σ α β : Type} {f : α → β} {r : Outcome σ α} {b : β}
    (h : (r.mapAnswer f).1 = .ok b) : ∃ a, r.1 = .ok a ∧ f a = b := by
  obtain ⟨answer, s⟩ := r
  cases answer with
  | error p => cases h
  | ok a =>
    cases h
    exact ⟨a, rfl, rfl⟩

theorem slot_munch_of_error {accept : Char → Bool} {text : List Char}
    (h : (cur.munch accept text).1 = .error p) : (cur.munch accept text).2.slot = none :=
  slot_gather_of_error h

theorem slot_operator_of_error {keepNewline : Bool} {first : Char} {start : Location}
    (h : (cur.operator keepNewline first start).1 = .error p) :
    (cur.operator keepNewline first start).2.slot = none := by
  have hslot := slot_next cur
  rcases hnext : cur.next with ⟨q | _ | second, cur'⟩
  · simpa [operator, hnext] using hslot
  · simp [operator, hnext] at h
  · rw [hnext] at hslot
    have hback := giveBack_of_slot_none hslot second
    by_cases hslashes : first = '/' ∧ second = '/'
    · simp only [operator, hnext, hslashes, and_self, if_true] at h ⊢
      exact slot_gather_of_error (error_of_mapAnswer h)
    · simp only [operator, hnext, hslashes, if_false, hback] at h ⊢
      exact slot_munch_of_error (error_of_mapAnswer h)

theorem slot_lexeme_of_error {keepNewline : Bool} {k : StartClass} {first : Char} {start : Location}
    (hslot : cur.slot = none) (h : (cur.lexeme keepNewline k first start).1 = .error p) :
    (cur.lexeme keepNewline k first start).2.slot = none := by
  cases k with
  | letter => exact slot_munch_of_error (error_of_mapAnswer h)
  | digit => exact slot_munch_of_error (error_of_mapAnswer h)
  | operator => exact slot_operator_of_error h
  | quote => exact slot_gather_of_error (error_of_mapAnswer h)
  | space => exact slot_munch_of_error (error_of_mapAnswer h)
  | punctuation =>
    show (cur.mark first start).2.slot = none
    unfold mark
    split
    · exact hslot
    · exact hslot

/-- After any problem with a token nothing waits in the slot. -/
theorem slot_nextToken_of_error {keepNewline : Bool}
    (h : (cur.nextToken keepNewline).1 = .error p) : (cur.nextToken keepNewline).2.slot = none := by
  have hslot := slot_next cur
  unfold nextToken at h ⊢
  split at h
  · next hnext => simpa [hnext] using hslot
  · cases h
  · next c cur' hnext =>
    rw [hnext] at hslot
    split at h
    · exact slot_lexeme_of_error hslot (error_of_mapAnswer h)
    · exact hslot

end Cursor

/-! ## §2. What a call leaves behind -/

/-- The token that an answer brings. -/
def tokenOf : Except Problem (Option Token) → Option Token
  | .ok t => t
  | .error _ => none

/-- The lexical error that an answer reports. -/
def lexicalErrorOf {α : Type} : Except Problem α → Option LexError
  | .error (.lexical e) => some e
  | _ => none

theorem lexicalErrorOf_eq_some_iff {α : Type} {answer : Except Problem α} {e : LexError} :
    lexicalErrorOf answer = some e ↔ answer = .error (.lexical e) := by
  constructor
  · intro h
    unfold lexicalErrorOf at h
    split at h
    · cases h
      rfl
    · cases h
  · rintro rfl
    rfl

@[simp] theorem lexicalErrorOf_map {α β : Type} (f : α → β) (answer : Except Problem α) :
    lexicalErrorOf (answer.map f) = lexicalErrorOf answer := by
  cases answer with
  | error p =>
    cases p with
    | lexical e => rfl
    | fault f => rfl
    | slotFull held given => rfl
    | notPunctuation c => rfl
  | ok a => rfl

namespace Lexer

variable {lx lx' : Lexer} {screened : Bool} {t : Token} {ts us : List Token} {e : LexError}
  {problem problem' : Option Problem}

/-- A call of a lexer that remembers no error: the token is counted, and an error is remembered and
    closes the cursor. -/
theorem next_of_nextToken {answer : Except Problem (Option Token)} {cur : Cursor}
    (hf : lx.failure = none) (h : lx.cursor.nextToken lx.keepNewline = (answer, cur)) :
    lx.next = (answer, { lx with
      cursor := if (lexicalErrorOf answer).isSome then cur.close else cur
      tokenCount := lx.tokenCount + (tokenOf answer).toList.length
      failure := lexicalErrorOf answer }) := by
  rcases answer with p | _ | t
  · cases p with
    | lexical e => rw [next_of_lexical hf h]; rfl
    | fault f => simp [next, hf, h, tokenOf, lexicalErrorOf]
    | slotFull held given => simp [next, hf, h, tokenOf, lexicalErrorOf]
    | notPunctuation c => simp [next, hf, h, tokenOf, lexicalErrorOf]
  · simp [next_of_none hf h, hf, tokenOf, lexicalErrorOf]
  · simp [next_of_token hf h, hf, tokenOf, lexicalErrorOf]

/-- A call counts the token that it brings. -/
theorem tokenCount_next (lx : Lexer) :
    lx.next.2.tokenCount = lx.tokenCount + (tokenOf lx.next.1).toList.length := by
  cases hf : lx.failure with
  | some e => rw [next_of_failure hf]; rfl
  | none =>
    rcases htoken : lx.cursor.nextToken lx.keepNewline with ⟨answer, cur⟩
    rw [next_of_nextToken hf htoken]

/-- What a lexer remembers is the error that its last call reported. -/
theorem failure_next_eq (lx : Lexer) : lx.next.2.failure = lexicalErrorOf lx.next.1 := by
  cases hf : lx.failure with
  | some e => rw [next_of_failure hf, hf]; rfl
  | none =>
    rcases htoken : lx.cursor.nextToken lx.keepNewline with ⟨answer, cur⟩
    rw [next_of_nextToken hf htoken]

/-- A lexer that remembers an error reports it. -/
theorem failure_eq_none_of_answer (h : lexicalErrorOf lx.next.1 = none) : lx.failure = none := by
  cases hf : lx.failure with
  | some e => rw [next_of_failure hf] at h; cases h
  | none => rfl

/-- When an error is reported for the first time, nothing waits in the slot. -/
theorem slot_next_of_error (hf : lx.failure = none) {p : Problem} (h : lx.next.1 = .error p) :
    lx.next.2.cursor.slot = none := by
  rcases htoken : lx.cursor.nextToken lx.keepNewline with ⟨answer, cur⟩
  rw [next_of_nextToken hf htoken] at h ⊢
  have herror : (lx.cursor.nextToken lx.keepNewline).1 = .error p := by rw [htoken]; exact h
  have hslot := Cursor.slot_nextToken_of_error herror
  rw [htoken] at hslot
  split
  · simpa using hslot
  · exact hslot

/-- A lexer that remembers an error has released its stream. -/
def Sealed (lx : Lexer) : Prop := lx.failure ≠ none → lx.cursor.isOpen = false

theorem close_of_not_isOpen (h : lx.cursor.isOpen = false) : lx.close = lx := by
  rw [close, Cursor.close_of_not_isOpen h]

theorem sealed_close (lx : Lexer) : lx.close.Sealed := fun _ => Cursor.isOpen_close lx.cursor

theorem Sealed.next (h : lx.Sealed) : lx.next.2.Sealed := by
  cases hf : lx.failure with
  | some e => rwa [next_of_failure hf]
  | none =>
    rcases htoken : lx.cursor.nextToken lx.keepNewline with ⟨answer, cur⟩
    rw [next_of_nextToken hf htoken]
    intro herror
    have hsome : (lexicalErrorOf answer).isSome = true := Option.isSome_iff_ne_none.2 herror
    simp [hsome]

/-- A call that reports the end or an error leaves the stream released. -/
theorem Sealed.isOpen_next (h : lx.Sealed)
    (hlast : lx.next.1 = .ok none ∨ ∃ e, lx.next.1 = .error (.lexical e)) :
    lx.next.2.cursor.isOpen = false := by
  rcases hlast with hend | ⟨e, he⟩
  · have hf : lx.failure = none := failure_eq_none_of_answer (by rw [hend]; rfl)
    rcases htoken : lx.cursor.nextToken lx.keepNewline with ⟨answer, cur⟩
    rw [next_of_nextToken hf htoken] at hend ⊢
    obtain rfl : answer = .ok none := hend
    have hnext := Cursor.next_of_nextToken_none (congrArg Prod.fst htoken)
    have hclosed := Cursor.isOpen_next_of_none (congrArg Prod.fst hnext)
    rw [hnext, htoken] at hclosed
    exact hclosed
  · have hfailure := failure_next_eq lx
    rw [he] at hfailure
    exact h.next (by rw [hfailure]; simp [lexicalErrorOf])

/-! ## §3. Many calls -/

theorem Delivers.tokenCount_eq (h : lx.Delivers ts lx') :
    lx'.tokenCount = lx.tokenCount + ts.length := by
  induction h with
  | nil lx => rfl
  | @cons lx lx1 lx' t ts hnext _ ih =>
    have hcount := tokenCount_next lx
    rw [hnext] at hcount
    rw [ih, hcount, List.length_cons]
    simp only [tokenOf, Option.toList_some, List.length_singleton]
    omega

/-- Tokens are delivered as long as no error is remembered. -/
theorem Delivers.failure_eq (h : lx.Delivers ts lx') (hf : lx.failure = none) :
    lx'.failure = none := by
  induction h with
  | nil lx => exact hf
  | @cons lx lx1 lx' t ts hnext _ ih =>
    have hfailure := failure_next_eq lx
    rw [hnext] at hfailure
    exact ih hfailure

/-! ## §4. Pulls -/

theorem pull_of_token (h : lx.next = (.ok (some t), lx'))
    (ht : (screened && t.isDiscardable) = false) :
    lx.pull screened = (.ok (some t), lx') := by
  rw [pull_eq, h]
  simp [ht]

theorem pull_of_ending (h : lx.next.1 = ending problem) (screened : Bool) :
    lx.pull screened = (ending problem, lx.next.2.close) := by
  have hnext : lx.next = (ending problem, lx.next.2) := Prod.ext h rfl
  rw [pull_eq, hnext]
  cases problem with
  | none => rfl
  | some p => rfl

/-- A pull skips some tokens and then is answered like the next call. -/
theorem exists_pull (screened : Bool) (lx : Lexer) : ∃ skipped lx', lx.Delivers skipped lx' ∧
    Token.passed screened skipped = [] ∧
    ((∃ t, lx'.next.1 = .ok (some t) ∧ (screened && t.isDiscardable) = false ∧
        lx.pull screened = lx'.next) ∨
      ∃ problem, lx'.next.1 = ending problem ∧
        lx.pull screened = (ending problem, lx'.next.2.close)) := by
  fun_induction Lexer.pull screened lx with
  | case1 lx t lx1 hnext ht ih =>
    obtain ⟨skipped, lx', hskipped, hpassed, hlast⟩ := ih
    refine ⟨t :: skipped, lx', .cons hnext hskipped, ?_, hlast⟩
    rw [Token.passed_cons, ht, hpassed]
    rfl
  | case2 lx t lx1 hnext ht =>
    refine ⟨[], lx, .nil lx, rfl, .inl ⟨t, by rw [hnext], by simpa using ht, ?_⟩⟩
    rw [hnext]
  | case3 lx lx1 hnext =>
    refine ⟨[], lx, .nil lx, rfl, .inr ⟨none, by rw [hnext]; rfl, ?_⟩⟩
    rw [hnext]
    rfl
  | case4 lx p lx1 hnext =>
    refine ⟨[], lx, .nil lx, rfl, .inr ⟨some p, by rw [hnext]; rfl, ?_⟩⟩
    rw [hnext]
    rfl

/-- What a lexer remembers after a pull is the error that the pull reported. -/
theorem failure_pull_eq (screened : Bool) (lx : Lexer) :
    (lx.pull screened).2.failure = lexicalErrorOf (lx.pull screened).1 := by
  obtain ⟨skipped, lx', -, -, hlast⟩ := exists_pull screened lx
  have hfailure := failure_next_eq lx'
  rcases hlast with ⟨t, hnext, -, hpull⟩ | ⟨problem, hnext, hpull⟩
  · rw [hpull]
    exact hfailure
  · rw [hpull, ← hnext]
    exact hfailure

/-! ## §5. The rest of a run -/

/-- A run goes on to the end of the run from where it stands. -/
theorem Delivers.finishes (h : lx.Delivers ts lx') (h' : lx'.Finishes us problem) :
    lx.Finishes (ts ++ us) problem := by
  induction h with
  | nil lx => exact h'
  | cons hnext _ ih =>
    obtain ⟨lx'', hdelivers, hending⟩ := ih h'
    exact ⟨lx'', .cons hnext hdelivers, hending⟩

/-- The tokens of a run come first in the finished run, and the rest of it is still to come. -/
theorem Finishes.rest (h : lx.Finishes ts problem) (hus : lx.Delivers us lx') :
    ∃ rest, ts = us ++ rest ∧ lx'.Finishes rest problem := by
  obtain ⟨rest, problem', hrest⟩ := exists_finishes lx'
  obtain ⟨htokens, hproblem⟩ := h.unique (hus.finishes hrest)
  rw [hproblem]
  exact ⟨rest, htokens, hrest⟩

theorem Finishes.of_next_token (h : lx.Finishes ts problem) (hnext : lx.next.1 = .ok (some t)) :
    ∃ rest, ts = t :: rest ∧ lx.next.2.Finishes rest problem := by
  have hone : lx.Delivers [t] lx.next.2 := .cons_of_answer hnext (.nil _)
  obtain ⟨rest, hts, hrest⟩ := h.rest hone
  exact ⟨rest, hts, hrest⟩

theorem Finishes.of_next_ending (h : lx.Finishes ts problem) (hnext : lx.next.1 = ending problem') :
    ts = [] ∧ problem = problem' := by
  have hnow : lx.Finishes [] problem' := ⟨lx, .nil lx, hnext⟩
  exact h.unique hnow

/-- A pull in a finished run: some tokens are skipped, then the next one is delivered, or there is
    none and the pull ends like the run. -/
theorem Finishes.pull (h : lx.Finishes ts problem) (screened : Bool) :
    ∃ skipped rest, ts = skipped ++ rest ∧ Token.passed screened skipped = [] ∧
      ((∃ t rest', rest = t :: rest' ∧ (screened && t.isDiscardable) = false ∧
          (lx.pull screened).1 = .ok (some t) ∧ (lx.pull screened).2.Finishes rest' problem ∧
          (lx.pull screened).2.tokenCount = lx.tokenCount + skipped.length + 1) ∨
        rest = [] ∧ (lx.pull screened).1 = ending problem ∧
          (lx.pull screened).2.tokenCount = lx.tokenCount + skipped.length) := by
  obtain ⟨skipped, lx', hskipped, hpassed, hlast⟩ := exists_pull screened lx
  obtain ⟨rest, hts, hrest⟩ := h.rest hskipped
  have hcount := tokenCount_next lx'
  rw [hskipped.tokenCount_eq] at hcount
  refine ⟨skipped, rest, hts, hpassed, ?_⟩
  rcases hlast with ⟨t, hnext, hkept, hpull⟩ | ⟨problem', hnext, hpull⟩
  · obtain ⟨rest', rfl, hrest'⟩ := hrest.of_next_token hnext
    rw [hnext] at hcount
    rw [hpull]
    exact .inl ⟨t, rest', rfl, hkept, hnext, hrest', hcount⟩
  · obtain ⟨rfl, rfl⟩ := hrest.of_next_ending hnext
    rw [hnext] at hcount
    rw [hpull]
    refine .inr ⟨rfl, rfl, ?_⟩
    cases problem with
    | none => exact hcount
    | some p => exact hcount

/-- A pull that has no token to pass comes to the end of the run. -/
theorem Finishes.pull_of_passed_nil (h : lx.Finishes ts problem)
    (hnil : Token.passed screened ts = []) :
    (lx.pull screened).1 = ending problem ∧
      (lx.pull screened).2.tokenCount = lx.tokenCount + ts.length := by
  obtain ⟨skipped, rest, rfl, hskipped, hlast⟩ := h.pull screened
  rw [Token.passed_append, hskipped, List.nil_append] at hnil
  rcases hlast with ⟨t, rest', rfl, hkept, -⟩ | ⟨rfl, hpull, hcount⟩
  · rw [Token.passed_cons, hkept] at hnil
    cases hnil
  · rw [List.append_nil]
    exact ⟨hpull, hcount⟩

/-- A pull delivers the first token that is passed, and the others are still to come. -/
theorem Finishes.pull_of_passed_cons (h : lx.Finishes ts problem)
    (hcons : Token.passed screened ts = t :: us) :
    ∃ rest, (lx.pull screened).1 = .ok (some t) ∧ (lx.pull screened).2.Finishes rest problem ∧
      Token.passed screened rest = us ∧
      (lx.pull screened).2.tokenCount + rest.length = lx.tokenCount + ts.length := by
  obtain ⟨skipped, rest, rfl, hskipped, hlast⟩ := h.pull screened
  rw [Token.passed_append, hskipped, List.nil_append] at hcons
  rcases hlast with ⟨u, rest', rfl, hkept, hpull, hrest', hcount⟩ | ⟨rfl, -⟩
  · rw [Token.passed_cons, hkept] at hcons
    obtain ⟨rfl, hus⟩ : u = t ∧ Token.passed screened rest' = us := by simpa using hcons
    refine ⟨rest', hpull, hrest', hus, ?_⟩
    rw [hcount, List.length_append, List.length_cons]
    omega
  · cases hcons

end Lexer

end RpalLex
