import RpalLex.Proofs.Sharing
import RpalLex.Proofs.Stopped

/-! # The last character of a released stream

  Releasing the stream does not empty the slot.  The character that waits
  there is read as a whole text: it is a token by itself, or it opens a string
  literal that is never closed, or no token starts with it (§1).

  The first call takes it, whoever makes the call.  If it was a token the
  lexer is spent afterwards, and if not its error is remembered (§2, §3).

  Main statements: `OneLeft.next` (the call), `perform_of_oneLeft` (one
  operation of a session) and `reply_after_of_oneLeft` (a session, until the
  character is taken and from then on). -/

namespace RpalLex

open Alphabet

/-! ## §1. Texts of one character -/

/-- The kind of the token that a single character makes. -/
def Token.Kind.ofLone? (c : Char) : Option Token.Kind :=
  match StartClass.ofChar? c with
  | some .letter => some .identifier
  | some .digit => some .integer
  | some .operator => some .operator
  | some .space => some .whitespace
  | some .punctuation => ofMark? c
  | some .quote => none
  | none => none

/-- What a call is answered if a single character is all that is left. -/
def loneAnswer (loc : Location) (c : Char) : Except Problem (Option Token) :=
  match Token.Kind.ofLone? c with
  | some kind => .ok (some ⟨kind, String.singleton c, loc⟩)
  | none =>
    if c = quote then .error (.lexical (.unterminatedString (some loc)))
    else .error (.lexical (.invalidCharacter c (some loc) none))

/-- What goes wrong with the character, which every later call reports. -/
def loneProblem (loc : Location) (c : Char) : Option Problem :=
  match loneAnswer loc c with
  | .ok _ => none
  | .error p => some p

/-- The character is a token, or there is an error about it. -/
theorem loneAnswer_cases (loc : Location) (c : Char) :
    (∃ t, loneAnswer loc c = .ok (some t) ∧ loneProblem loc c = none) ∨
      ∃ e, loneAnswer loc c = .error (.lexical e) ∧ loneProblem loc c = some (.lexical e) := by
  unfold loneProblem loneAnswer
  cases Token.Kind.ofLone? c with
  | some kind => exact .inl ⟨_, rfl, rfl⟩
  | none =>
    right
    by_cases hc : c = quote
    · exact ⟨_, by rw [if_pos hc], by rw [if_pos hc]⟩
    · exact ⟨_, by rw [if_neg hc], by rw [if_neg hc]⟩

/-- There are no reserved words of one letter. -/
theorem isReserved_singleton (c : Char) : Token.isReserved (String.ofList [c]) = false := by
  have hlong : (Token.reservedWords.all fun w => decide (2 ≤ w.toList.length)) = true := by
    decide +kernel
  by_contra hreserved
  have hmem : Token.reservedWords.contains (String.ofList [c]) = true := by
    simpa [Token.isReserved] using hreserved
  have hlength := List.all_eq_true.1 hlong _ (List.contains_iff_mem.1 hmem)
  simp at hlength

theorem exists_frontOf_singleton (keepNewline : Bool) (c : Char) :
    ∃ o, FrontOf keepNewline [c] o ∧ (∀ loc, o.answer loc = loneAnswer loc c) ∧
      ∀ p rest, o = .piece p rest → rest = [] := by
  -- A kind of token that goes by its first character, and whose written form is its value.
  have hpiece : ∀ k : Token.Kind, Token.Kind.ofLone? c = some k → k ≠ .string → k ≠ .comment →
      k.Language [c] → ∃ o, FrontOf keepNewline [c] o ∧
        (∀ loc, o.answer loc = loneAnswer loc c) ∧ ∀ p rest, o = .piece p rest → rest = [] := by
    intro k hk hstring hcomment hv
    refine ⟨.piece ⟨k, [c], []⟩ [], ?_, ?_, ?_⟩
    · have hstops : Stops k.continuedBy [] := by simp [Stops]
      have hfront : FrontOf keepNewline (k.written [c] ++ []) (.piece ⟨k, [c], []⟩ []) :=
        .piece hv hstops fun h => absurd h hcomment
      rwa [Token.Kind.written_of_ne_string hstring] at hfront
    · intro loc
      simp [loneAnswer, hk, Front.answer, Piece.token]
    · intro p rest h
      cases h
      rfl
  cases hclass : StartClass.ofChar? c with
  | none =>
    have hne : c ≠ quote := by
      rintro rfl
      cases hclass
    refine ⟨.invalid [] c none, .stray hclass, ?_, by simp⟩
    intro loc
    simp [loneAnswer, Token.Kind.ofLone?, hclass, hne, Front.answer]
  | some k =>
    have hc := StartClass.ofChar?_eq_some_iff.1 hclass
    cases k with
    | letter =>
      refine hpiece .identifier (by simp [Token.Kind.ofLone?, hclass]) (by simp) (by simp) ?_
      exact ⟨⟨c, [], rfl, hc, by simp⟩, isReserved_singleton c⟩
    | digit =>
      refine hpiece .integer (by simp [Token.Kind.ofLone?, hclass]) (by simp) (by simp) ?_
      exact row_cons hc (by simp)
    | operator =>
      refine hpiece .operator (by simp [Token.Kind.ofLone?, hclass]) (by simp) (by simp) ?_
      refine ⟨row_cons hc (by simp), ?_⟩
      rintro ⟨u, hu⟩
      simp at hu
    | space =>
      refine hpiece .whitespace (by simp [Token.Kind.ofLone?, hclass]) (by simp) (by simp) ?_
      exact row_cons hc (by simp)
    | punctuation =>
      have hsome : (Token.Kind.ofMark? c).isSome = true := by
        rw [Token.Kind.isSome_ofMark?]
        exact hc
      obtain ⟨mark, hmark⟩ := Option.isSome_iff_exists.1 hsome
      refine ⟨_, frontOf_mark keepNewline hmark [], ?_, ?_⟩
      · intro loc
        simp [loneAnswer, Token.Kind.ofLone?, hclass, hmark, Front.answer, Piece.token]
      · intro p rest h
        cases h
        rfl
    | quote =>
      have hquote : c = quote := by simpa [StartClass.contains] using hc
      subst hquote
      have hopen : OpenBody [] false := rfl
      refine ⟨.unterminated, .unterminated hopen, ?_, by simp⟩
      intro loc
      simp [loneAnswer, Token.Kind.ofLone?, hclass, Front.answer]

/-! ## §2. One call -/

/-- A released stream is not read, so it cannot fail. -/
theorem Cursor.kept_released : Kept fun cur => cur.isOpen = false ∧ cur.failure = none where
  next := by
    rintro cur ⟨hclosed, hfailure⟩
    refine ⟨preserved_not_isOpen.next cur hclosed, ?_⟩
    have hdelivery := cur.delivery
    generalize cur.next = answer at hdelivery ⊢
    cases hdelivery with
    | held => exact hfailure
    | failedBefore => exact hfailure
    | released => exact hfailure
    | char _ _ hopen => exact absurd (hopen.symm.trans hclosed) (by simp)
    | ended _ _ hopen => exact absurd (hopen.symm.trans hclosed) (by simp)
    | failed _ _ hopen => exact absurd (hopen.symm.trans hclosed) (by simp)
    | interrupted _ _ hopen => exact absurd (hopen.symm.trans hclosed) (by simp)
  giveBack := by
    intro c cur h
    rcases giveBack_cases c cur with ⟨-, hback⟩ | ⟨held, -, hback⟩
    · rw [hback]
      exact h
    · rw [hback]
      exact h
  close := by
    rintro cur ⟨hclosed, hfailure⟩
    rw [close_of_not_isOpen hclosed]
    exact ⟨hclosed, hfailure⟩

/-- The stream has been released, nothing has failed, and a single character is left, at a
    location. -/
structure Lexer.OneLeft (loc : Location) (c : Char) (lx : Lexer) : Prop where
  failure_eq : lx.failure = none
  released : lx.cursor.isOpen = false ∧ lx.cursor.failure = none
  slot_eq : lx.cursor.slot = some c
  location_eq : lx.cursor.location = loc

namespace Lexer.OneLeft

variable {lx : Lexer} {loc : Location} {c : Char} {screened : Bool}

theorem before (h : lx.OneLeft loc c) : lx.cursor.Before loc [c] where
  failure_eq := h.released.2
  location_eq := h.location_eq
  ahead := ⟨[], by simp [h.slot_eq], by simp [h.released.1], fun _ => rfl⟩

theorem answer_next (h : lx.OneLeft loc c) : lx.next.1 = loneAnswer loc c := by
  obtain ⟨o, ho, hanswer, -⟩ := exists_frontOf_singleton lx.keepNewline c
  rw [Lexer.answer_next h.failure_eq, (h.before.nextToken ho).1, hanswer]

theorem slot_next (h : lx.OneLeft loc c) : lx.next.2.cursor.slot = none := by
  have hanswer := h.answer_next
  rcases loneAnswer_cases loc c with ⟨t, ht, -⟩ | ⟨e, he, -⟩
  · obtain ⟨o, ho, -, hrest⟩ := exists_frontOf_singleton lx.keepNewline c
    obtain ⟨htoken, hbehind⟩ := h.before.nextToken ho
    rw [ht, Lexer.answer_next h.failure_eq] at hanswer
    rw [next_of_token h.failure_eq (Prod.ext hanswer rfl)]
    rw [hanswer] at htoken
    cases o with
    | piece p rest =>
      obtain rfl := hrest p rest rfl
      have hleft : Cursor.Left lx.keepNewline p.kind _ _ [] := hbehind
      exact hleft.fresh_of_nil.slot_eq
    | ended => cases htoken
    | invalid => cases htoken
    | unterminated => cases htoken
  · exact slot_next_of_error h.failure_eq (hanswer.trans he)

/-- The call uses the character up. -/
theorem next (h : lx.OneLeft loc c) : lx.next.2.Spent (loneProblem loc c) := by
  obtain ⟨hclosed, hfailure⟩ := Cursor.kept_released.onLexers.next lx h.released
  have hcursor : lx.next.2.cursor.Spent := ⟨hfailure, hclosed, h.slot_next⟩
  have hremembered := failure_next_eq lx
  rw [h.answer_next] at hremembered
  rcases loneAnswer_cases loc c with ⟨t, ht, hproblem⟩ | ⟨e, he, hproblem⟩
  · rw [ht] at hremembered
    rw [hproblem]
    exact spent_of_failure_none hremembered hcursor
  · rw [he] at hremembered
    rw [hproblem]
    exact spent_of_failure hremembered hcursor

/-- A pull may skip the token, but it finds nothing more. -/
theorem lexer_pull (h : lx.OneLeft loc c) (screened : Bool) :
    (lx.pull screened).2 = lx.next.2 := by
  have hspent := h.next
  have hanswer := h.answer_next
  rcases loneAnswer_cases loc c with ⟨t, ht, hproblem⟩ | ⟨e, he, hproblem⟩
  · have hnext : lx.next = (.ok (some t), lx.next.2) := Prod.ext (hanswer.trans ht) rfl
    rw [pull_eq, hnext]
    show (if screened && t.isDiscardable then lx.next.2.pull screened else _).2 = lx.next.2
    split
    · rw [hspent.pull_eq]
    · rfl
  · have hending : lx.next.1 = ending (some (.lexical e)) := hanswer.trans he
    rw [pull_of_ending hending, hspent.close_eq]

theorem lexer_collect (h : lx.OneLeft loc c) (screened : Bool) :
    (lx.collect screened).lexer = lx.next.2 := by
  have hspent := h.next
  have hanswer := h.answer_next
  rcases loneAnswer_cases loc c with ⟨t, ht, hproblem⟩ | ⟨e, he, hproblem⟩
  · have hone : lx.Delivers [t] lx.next.2 := .cons_of_answer (hanswer.trans ht) (.nil _)
    rw [hone.collect (congrArg Prod.fst hspent.next_eq), hspent.next_eq]
    exact hspent.close_eq
  · have hending : lx.next.1 = ending (some (.lexical e)) := hanswer.trans he
    rw [(Delivers.nil lx).collect hending]
    exact hspent.close_eq

end Lexer.OneLeft

/-! ## §3. Sessions -/

namespace Session

open Lexer

variable {s : Shared} {op : LexerOp} {loc : Location} {c : Char}

/-- Does the operation call the lexer?  An iterator that has ended does not. -/
def LexerOp.CallsIn : LexerOp → Shared → Prop
  | .next, _ | .drain, _ => True
  | .advance id, s => (s.iterator id).phase ≠ .finished
  | _, _ => False

instance : ∀ (op : LexerOp) (s : Shared), Decidable (op.CallsIn s)
  | .next, _ | .drain, _ => inferInstanceAs (Decidable True)
  | .advance id, s => inferInstanceAs (Decidable ((s.iterator id).phase ≠ .finished))
  | .close, _ | .enter, _ | .leave, _ | .iterate _ _, _ | .screen _, _ | .stop _, _
  | .cursor _, _ => inferInstanceAs (Decidable False)

/-- A call was made, directly or by an iterator. -/
def Called : List LexerOp → Shared → Prop := happened LexerOp.CallsIn

instance (ops : List LexerOp) (s : Shared) : Decidable (Called ops s) := decidableHappened ops s

theorem LexerOp.not_callsIn_of_not_calls (h : op.calls = false) : ¬ op.CallsIn s := by
  intro hin
  cases op with
  | next => cases h
  | drain => cases h
  | advance id => cases h
  | _ => exact hin

/-- Who calls does not matter, and nothing but a call or a read of the cursor itself changes the
    lexer. -/
theorem perform_of_oneLeft (hs : s.Sound) (h : s.lexer.OneLeft loc c)
    (hop : ∀ d, op ≠ .cursor (.giveBack d)) :
    (op.CallsIn s ∧ (op.perform s).2.lexer = s.lexer.next.2) ∨
    (op = .cursor .next ∧ (op.perform s).2.lexer.Spent none ∧
      (op.perform s).2.lexer.tokenCount = s.lexer.tokenCount) ∨
    (¬ op.CallsIn s ∧ (op.perform s).2.lexer = s.lexer) := by
  have hclosed : s.lexer.close = s.lexer := close_of_not_isOpen h.released.1
  have heffect := hs.effect op
  generalize (op.perform s).1 = reply, (op.perform s).2.lexer = lx at heffect ⊢
  cases heffect with
  | call => exact .inl ⟨trivial, rfl⟩
  | drain => exact .inl ⟨trivial, h.lexer_collect false⟩
  | pull hlive => exact .inl ⟨hlive, h.lexer_pull _⟩
  | ended hfinished => exact .inr (.inr ⟨fun hlive => hlive hfinished, rfl⟩)
  | quiet hcalls => exact .inr (.inr ⟨LexerOp.not_callsIn_of_not_calls hcalls, rfl⟩)
  | release hcalls => exact .inr (.inr ⟨LexerOp.not_callsIn_of_not_calls hcalls, hclosed⟩)
  | @cursor cursorOp =>
    have hcursor : s.lexer.cursor.close = s.lexer.cursor := congrArg Lexer.cursor hclosed
    have hsame : ∀ cur : Cursor, cur = s.lexer.cursor →
        ({ s.lexer with cursor := cur } : Lexer) = s.lexer := by
      rintro cur rfl
      rfl
    cases cursorOp with
    | next =>
      obtain ⟨hreleased, hfailure⟩ := Cursor.kept_released.next s.lexer.cursor h.released
      refine .inr (.inl ⟨rfl, ?_, rfl⟩)
      exact spent_of_failure_none h.failure_eq
        ⟨hfailure, hreleased, Cursor.slot_next s.lexer.cursor⟩
    | giveBack d => exact absurd rfl (hop d)
    | close => exact .inr (.inr ⟨id, hsame _ hcursor⟩)
    | location => exact .inr (.inr ⟨id, rfl⟩)
    | enter => exact .inr (.inr ⟨id, rfl⟩)
    | leave => exact .inr (.inr ⟨id, hsame _ hcursor⟩)

/-- The first call uses the character up, and until then nothing happens. -/
theorem lexer_after_of_oneLeft (hs : s.Sound) (h : s.lexer.OneLeft loc c) (ops : List LexerOp)
    (hback : ∀ d, .cursor (.giveBack d) ∉ ops) (hread : .cursor .next ∉ ops) :
    (Called ops s ∧ (after LexerOp.perform ops s).lexer = s.lexer.next.2) ∨
      (¬ Called ops s ∧ (after LexerOp.perform ops s).lexer = s.lexer) := by
  induction ops generalizing s with
  | nil => exact .inr ⟨id, rfl⟩
  | cons op ops ih =>
    obtain ⟨hop, hback'⟩ := not_giveBack_cons hback
    have hread' : .cursor .next ∉ ops := fun hmem => hread (List.mem_cons_of_mem op hmem)
    rw [after_cons]
    rcases perform_of_oneLeft hs h hop with ⟨hcalls, hlexer⟩ | ⟨rfl, -⟩ | ⟨hno, hlexer⟩
    · -- This was the call, and the lexer is spent from here on.
      have hspent := h.next
      rw [← hlexer] at hspent
      refine .inl ⟨.inl hcalls, ?_⟩
      rw [hspent.lexer_after (hs.perform op) ops hback', hlexer]
    · exact absurd List.mem_cons_self hread
    · rw [← hlexer] at h ⊢
      rcases ih (hs.perform op) h hback' hread' with ⟨hcalled, hlater⟩ | ⟨hnot, hlater⟩
      · exact .inl ⟨.inr hcalled, hlater⟩
      · exact .inr ⟨fun hcalled => hcalled.elim hno hnot, hlater⟩

/-- The first call is answered by the character alone, and the later ones by what is left then. -/
theorem reply_after_of_oneLeft (hs : s.Sound) (h : s.lexer.OneLeft loc c) (ops : List LexerOp)
    (hback : ∀ d, .cursor (.giveBack d) ∉ ops) (hread : .cursor .next ∉ ops) :
    let reply := (LexerOp.next.perform (after LexerOp.perform ops s)).1
    (¬ Called ops s → reply = (loneAnswer loc c).map .token) ∧
      (Called ops s → reply = (ending (loneProblem loc c)).map .token) := by
  intro reply
  rcases lexer_after_of_oneLeft hs h ops hback hread with ⟨hcalled, hlexer⟩ | ⟨hnot, hlexer⟩
  · refine ⟨fun hno => absurd hcalled hno, fun _ => ?_⟩
    have hspent := h.next
    rw [← hlexer] at hspent
    exact hspent.reply
  · refine ⟨fun _ => ?_, fun hyes => absurd hyes hnot⟩
    show (after LexerOp.perform ops s).lexer.next.1.map Reply.token = _
    rw [hlexer, h.answer_next]

/-- Whatever is done, at most one token is counted. -/
theorem tokenCount_after_of_oneLeft (hs : s.Sound) (h : s.lexer.OneLeft loc c)
    (ops : List LexerOp) (hback : ∀ d, .cursor (.giveBack d) ∉ ops) :
    (after LexerOp.perform ops s).lexer.tokenCount ≤ s.lexer.tokenCount + 1 := by
  induction ops generalizing s with
  | nil => exact Nat.le_succ _
  | cons op ops ih =>
    obtain ⟨hop, hback'⟩ := not_giveBack_cons hback
    rw [after_cons]
    rcases perform_of_oneLeft hs h hop with ⟨-, hlexer⟩ | ⟨-, hspent, hcount⟩ | ⟨-, hlexer⟩
    · have hspent := h.next
      rw [← hlexer] at hspent
      rw [hspent.lexer_after (hs.perform op) ops hback', hlexer, tokenCount_next]
      have hone : (tokenOf s.lexer.next.1).toList.length ≤ 1 := by
        cases tokenOf s.lexer.next.1 with
        | none => exact Nat.zero_le 1
        | some t => exact Nat.le_refl 1
      omega
    · rw [hspent.lexer_after (hs.perform op) ops hback', hcount]
      exact Nat.le_succ _
    · rw [← hlexer] at h
      have hlater := ih (hs.perform op) h hback'
      rwa [hlexer] at hlater

end Session

end RpalLex
