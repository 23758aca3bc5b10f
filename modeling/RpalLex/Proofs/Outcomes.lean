import RpalLex.Proofs.Kept

/-! # What a call may fail with

  A cursor takes back at most one character, and the slot may be full when a
  lexeme begins: whoever read before may have given a character back.  But
  every lexeme reads before it gives back, and a read empties the slot; so no
  lexeme ever gives a character back into a full slot, whatever its first
  character is.

  What a lexeme fails with then comes from the text or from the stream
  (`OfScanning`): an error that says why the text is no sequence of tokens, a
  read that failed, or an interruption that the stream raised at this very
  moment.  The only other problem is a punctuation mark that is none, and the
  start class excludes it in a call (§2).

  Main statements: `scans_gather` (the loop), `scans_nextToken` (a token) and
  `call_outcome`. -/

namespace RpalLex

open Alphabet

/-- An error that scanning reports: a literal that is not closed, a character that cannot stand
    where it does (and is one character, so that there is an error for it), or a text that could
    not be read. -/
inductive LexError.Scanned : LexError → Prop where
  | unterminated (loc : Option Location) : Scanned (.unterminatedString loc)
  | invalid {c : Char} {loc : Option Location} {context : Option String} {e : LexError} :
      ofCharString (.singleton c) loc context = .ok e → Scanned e
  | unreadable (message : String) (loc : Option Location) (hint : Option String)
      (cause : Option ReadCause) : Scanned (.unreadable message loc hint cause)

theorem LexError.scanned_invalid (c : Char) (loc : Option Location) (context : Option String) :
    Scanned (.invalidCharacter c loc context) := by
  have hone : ofCharString (.singleton c) loc context = .ok (.invalidCharacter c loc context) := by
    simp [ofCharString]
  exact .invalid hone

namespace Cursor

variable {σ α β : Type} {past : List Stream.Event} {cur cur' : Cursor} {first : Char}
  {start : Location}

/-! ## §1. Problems of scanning -/

/-- A problem that scanning may come to, with the cursor after it, if `past` is what had happened
    to the stream before. -/
inductive OfScanning (past : List Stream.Event) (cur : Cursor) : Problem → Prop where
  | lexical {e : LexError} : e.Scanned → OfScanning past cur (.lexical e)
  /-- The stream itself raised it, in the last read. -/
  | fault {f : Fault} {between : List Stream.Event} : f.kind.endsReading = false →
      cur.stream.history = .read (.fault f) :: (between ++ past) → OfScanning past cur (.fault f)

/-- What scanning comes to: more happened to the stream, and a problem is one of scanning. -/
structure Scans (past : List Stream.Event) (r : Outcome Cursor α) : Prop where
  past_suffix : past <:+ r.2.stream.history
  problem : ∀ p, r.1 = .error p → OfScanning past r.2 p

theorem Scans.ok (h : past <:+ cur.stream.history) (a : α) : Scans past (.ok a, cur) :=
  ⟨h, fun _ hp => by cases hp⟩

theorem Scans.lexical (h : past <:+ cur.stream.history) {e : LexError} (he : e.Scanned) :
    Scans (α := α) past (.error (.lexical e), cur) := by
  refine ⟨h, fun p hp => ?_⟩
  cases hp
  exact .lexical he

theorem Scans.mapAnswer {r : Outcome Cursor α} (h : Scans past r) (f : α → β) :
    Scans past (r.mapAnswer f) :=
  ⟨h.past_suffix, fun p hp => h.problem p (error_of_mapAnswer hp)⟩

/-- Problems do not depend on the type of the answer. -/
theorem Scans.error {r : Outcome Cursor α} {p : Problem} (h : Scans past r)
    (hr : r = (.error p, cur)) : Scans (α := β) past (.error p, cur) := by
  subst hr
  exact ⟨h.past_suffix, fun q hq => h.problem q (by cases hq; rfl)⟩

/-! ## §2. Lexemes -/

theorem history_close_suffix (cur : Cursor) :
    cur.stream.history <:+ cur.close.stream.history := by
  unfold close
  split
  · exact List.suffix_cons _ _
  · exact List.suffix_rfl

theorem scans_next (h : past <:+ cur.stream.history) : Scans past cur.next := by
  have hread : ∀ {r : Read} {stream : Stream}, cur.stream.read = (r, stream) →
      past <:+ stream.history := by
    intro r stream hr
    rw [Stream.history_of_read hr]
    exact h.trans (List.suffix_cons _ _)
  have hdelivery := cur.delivery
  generalize cur.next = r at hdelivery ⊢
  cases hdelivery with
  | held =>
    refine .ok ?_ _
    exact h
  | failedBefore => exact .lexical h (.unreadable _ _ _ _)
  | released => exact .ok h _
  | char _ _ _ hr =>
    refine .ok ?_ _
    exact hread hr
  | @ended stream _ _ _ hr =>
    refine .ok (List.IsSuffix.trans ?_ (history_close_suffix { cur with stream })) _
    exact hread hr
  | @failed f stream _ _ _ hr =>
    refine .lexical (List.IsSuffix.trans ?_ (history_close_suffix
      { cur with stream, failure := some (cur.failureOf f) })) (.unreadable _ _ _ _)
    exact hread hr
  | interrupted _ _ _ hr hf =>
    refine ⟨hread hr, fun p hp => ?_⟩
    cases hp
    obtain ⟨between, hbetween⟩ := h
    exact .fault hf (by rw [hbetween]; exact Stream.history_of_read hr)

theorem past_of_next {answer : Except Problem (Option Char)} (h : past <:+ cur.stream.history)
    (hnext : cur.next = (answer, cur')) : past <:+ cur'.stream.history := by
  have hsuffix := (scans_next h).past_suffix
  rwa [hnext] at hsuffix

/-- A character that was just read is taken back. -/
theorem scans_stopBefore (h : past <:+ cur.stream.history) {c : Char}
    (hnext : cur.next = (.ok (some c), cur')) (a : α) : Scans past (cur'.stopBefore c a) := by
  have hpast := past_of_next h hnext
  rw [stopBefore, giveBack_of_slot_none (slot_of_next hnext), Outcome.mapAnswer_ok]
  refine .ok ?_ a
  exact hpast

theorem scans_gather {rule : Rule σ α} (hend : ∀ s e, rule.onEnd s = .error e → e.Scanned) (s : σ)
    (h : past <:+ cur.stream.history) : Scans past (gather rule s cur) := by
  fun_induction Cursor.gather rule s cur with
  | case1 s cur p cur' hnext => exact (scans_next h).error hnext
  | case2 s cur cur' hnext =>
    cases hanswer : rule.onEnd s with
    | error e => exact .lexical (past_of_next h hnext) (hend s e hanswer)
    | ok a => exact .ok (past_of_next h hnext) a
  | case3 s cur c cur' hnext s' hv ih => exact ih (past_of_next h hnext)
  | case4 s cur c cur' hnext a hv => exact .ok (past_of_next h hnext) a
  | case5 s cur c cur' hnext a hv => exact scans_stopBefore h hnext a
  | case6 s cur c cur' hnext context hv =>
    exact .lexical (past_of_next h hnext) (LexError.scanned_invalid c _ context)

theorem scans_munch (accept : Char → Bool) (text : List Char) (h : past <:+ cur.stream.history) :
    Scans past (cur.munch accept text) :=
  scans_gather (fun _ _ he => by cases he) _ h

theorem scans_comment (keepNewline : Bool) (start : Location) (h : past <:+ cur.stream.history) :
    Scans past (cur.comment keepNewline start) :=
  (scans_gather (fun _ _ he => by cases he) _ h).mapAnswer _

theorem scans_literal (start : Location) (h : past <:+ cur.stream.history) :
    Scans past (cur.literal start) := by
  refine (scans_gather (fun _ e he => ?_) _ h).mapAnswer _
  cases he
  exact .unterminated _

theorem scans_operator (keepNewline : Bool) (first : Char) (start : Location)
    (h : past <:+ cur.stream.history) : Scans past (cur.operator keepNewline first start) := by
  unfold operator
  split
  · next hnext => exact (scans_next h).error hnext
  · next hnext => exact .ok (past_of_next h hnext) _
  · next second cur' hnext =>
    have hpast := past_of_next h hnext
    split
    · exact scans_comment keepNewline start hpast
    · -- The second character was just read, so it can be given back.
      rw [giveBack_of_slot_none (slot_of_next hnext)]
      refine Scans.mapAnswer (scans_munch isOperatorSymbol [first] ?_) _
      exact hpast

/-- The start class of a character excludes that it is taken for a punctuation mark. -/
theorem scans_lexeme {k : StartClass} (hk : StartClass.ofChar? first = some k) (keepNewline : Bool)
    (start : Location) (h : past <:+ cur.stream.history) :
    Scans past (cur.lexeme keepNewline k first start) := by
  cases k with
  | letter => exact (scans_munch _ _ h).mapAnswer _
  | digit => exact (scans_munch _ _ h).mapAnswer _
  | operator => exact scans_operator keepNewline first start h
  | quote => exact scans_literal start h
  | space => exact (scans_munch _ _ h).mapAnswer _
  | punctuation =>
    have hmark : (Token.Kind.ofMark? first).isSome = true := by
      rw [Token.Kind.isSome_ofMark?]
      exact StartClass.contains_of_ofChar? hk
    obtain ⟨kind, hkind⟩ := Option.isSome_iff_exists.1 hmark
    show Scans past (cur.mark first start)
    rw [mark, hkind]
    exact .ok h _

theorem scans_nextToken (keepNewline : Bool) (h : past <:+ cur.stream.history) :
    Scans past (cur.nextToken keepNewline) := by
  unfold nextToken
  split
  · next hnext => exact (scans_next h).error hnext
  · next hnext => exact .ok (past_of_next h hnext) _
  · next c cur' hnext =>
    have hpast := past_of_next h hnext
    split
    · next k hk => exact (scans_lexeme hk keepNewline cur.location hpast).mapAnswer _
    · exact .lexical hpast (LexError.scanned_invalid c _ none)

end Cursor

/-! ## §3. Calls -/

namespace Lexer

variable {lx : Lexer} {past : List Stream.Event} {p : Problem}

/-- An error that is remembered is one of scanning. -/
def RemembersScanned (lx : Lexer) : Prop := ∀ e, lx.failure = some e → e.Scanned

/-- What a call fails with is what it remembers, or comes from the next token. -/
theorem RemembersScanned.next_error (h : lx.RemembersScanned)
    (hpast : past <:+ lx.cursor.stream.history) (hp : lx.next.1 = .error p) :
    Cursor.OfScanning past lx.next.2.cursor p := by
  cases hf : lx.failure with
  | some e =>
    rw [next_of_failure hf] at hp ⊢
    cases hp
    exact .lexical (h e hf)
  | none =>
    have hscans := Cursor.scans_nextToken lx.keepNewline hpast
    rcases htoken : lx.cursor.nextToken lx.keepNewline with ⟨answer, cur⟩
    rw [next_of_nextToken hf htoken] at hp ⊢
    rw [htoken] at hscans
    cases hp
    cases hscans.problem p rfl with
    | lexical he => exact .lexical he
    | fault hkind hhistory => exact .fault hkind hhistory

theorem kept_remembersScanned : Kept RemembersScanned where
  next := by
    intro lx h e he
    rw [failure_next_eq, lexicalErrorOf_eq_some_iff] at he
    cases h.next_error List.suffix_rfl he with
    | lexical hscanned => exact hscanned
  close := fun _ h => h
  cursor := fun _ _ h => h

end Lexer

namespace Session

/-- No lexeme gives a character back into a full slot. -/
theorem LexemeOp.perform_ne_slotFull (keepNewline : Bool) (op : LexemeOp)
    (hop : ∀ cursorOp, op ≠ .cursor cursorOp) (cur : Cursor) (held given : Char) :
    (op.perform keepNewline cur).1 ≠ .error (.slotFull held given) := by
  have hscans : ∀ {r : Outcome Cursor Token}, Cursor.Scans cur.stream.history r →
      (r.mapAnswer (Reply.token ∘ some)).1 ≠ .error (.slotFull held given) := by
    intro r hr hfull
    cases hr.problem _ (Cursor.error_of_mapAnswer hfull)
  have hnow : cur.stream.history <:+ cur.stream.history := List.suffix_rfl
  cases op with
  | word first start => exact hscans ((Cursor.scans_munch _ _ hnow).mapAnswer _)
  | integer first start => exact hscans ((Cursor.scans_munch _ _ hnow).mapAnswer _)
  | operator first start => exact hscans (Cursor.scans_operator keepNewline first start hnow)
  | whitespace first start => exact hscans ((Cursor.scans_munch _ _ hnow).mapAnswer _)
  | mark first start =>
    intro hfull
    have hmark : (cur.mark first start).1 = .error (.slotFull held given) :=
      Cursor.error_of_mapAnswer hfull
    unfold Cursor.mark at hmark
    split at hmark
    · cases hmark
    · cases hmark
  | comment start => exact hscans (Cursor.scans_comment keepNewline start hnow)
  | literal start => exact hscans (Cursor.scans_literal start hnow)
  | cursor cursorOp => exact absurd rfl (hop cursorOp)

end Session

end RpalLex
