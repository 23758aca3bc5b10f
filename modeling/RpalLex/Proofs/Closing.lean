import RpalLex.Proofs.Conservation
import RpalLex.Proofs.LastCharacter
import RpalLex.Proofs.Release

/-! # Closing in the middle of a text

  A lexer over a text is called, directly and by iterators, and then its
  stream is released.  What it had in the slot is still to come, and nothing
  else.

  Before that the lexer *stands* somewhere in its run (`Standing`): it has
  delivered tokens and may have been closed before, or it is spent already.
  The last token tells whether there is a character in the slot (§1): only a
  kind of token that ends where it does because of the next character leaves
  that character there.

  Main statements: `Delivers.left`, `standing_perform`, `standing_after` and
  `closing_cuts`. -/

namespace RpalLex

namespace Lexer

variable {lx lx' fresh : Lexer} {keepNewline : Bool} {loc : Location} {r : List Char}
  {ts taken : List Token} {c : Char}

/-! ## §1. What the last token leaves -/

/-- The tokens delivered are pieces of the text, and the last of them says what it left. -/
theorem Delivers.left (h : lx.Delivers ts lx') (hlx : lx.Before keepNewline loc r) :
    ∃ ps rest, Cuts keepNewline r ps rest ∧ ts = located loc ps ∧
      lx'.Before keepNewline (loc.after (sources ps)) rest ∧
      ∀ t, ts.getLast? = some t →
        lx'.cursor.Left keepNewline t.kind (loc.after (sources ps)) rest := by
  induction h generalizing loc r with
  | nil lx => exact ⟨[], r, .nil r, rfl, hlx, by simp⟩
  | @cons lx lx1 lx' t ts hnext hrun ih =>
    obtain ⟨p, rest1, hp, rfl, hlx1, hleft⟩ := hlx.of_next_token hnext
    obtain ⟨ps, rest, hps, rfl, hlx', hlast⟩ := ih hlx1
    rw [← Location.after_append] at hlx'
    refine ⟨p :: ps, rest, .cons hp hps, rfl, hlx', ?_⟩
    intro t ht
    rw [sources_cons, Location.after_append]
    cases ps with
    | nil =>
      -- This was the last token, and nothing has happened since.
      cases hrun
      cases hps
      obtain rfl : p.token loc = t := by simpa [located] using ht
      exact hleft
    | cons q qs =>
      apply hlast
      simpa [located, List.getLast?_cons] using ht

/-! ## §2. Standing in a run -/

/-- The end of the text leaves nothing behind. -/
theorem Before.spent_of_none (h : lx.Before keepNewline loc r) (hnone : lx.next.1 = .ok none) :
    lx.next.2.Spent none := by
  obtain rfl := h.of_next_none hnone
  obtain ⟨rfl, hfailure, hcursor⟩ := h
  have hended : FrontOf lx.keepNewline [] .ended := .ended
  obtain ⟨hend, hbehind⟩ := hcursor.nextToken hended
  have hpeeked : Cursor.Peeked _ loc [] := hbehind
  rw [next_of_none hfailure (Prod.ext hend rfl)]
  exact spent_of_failure_none hfailure
    ⟨hpeeked.failure_eq, hpeeked.isOpen_eq rfl, hpeeked.slot_eq⟩

theorem Before.spent_close (h : lx.Before keepNewline loc r) (hslot : lx.cursor.slot = none) :
    lx.close.Spent none := by
  refine spent_of_failure_none h.failure_eq ⟨?_, Cursor.isOpen_close _, ?_⟩
  · exact (Cursor.failure_close _).trans h.cursor.failure_eq
  · exact (Cursor.slot_close _).trans hslot

theorem Before.oneLeft_close (h : lx.Before keepNewline loc r)
    (hslot : lx.cursor.slot = some c) : lx.close.OneLeft loc c where
  failure_eq := h.failure_eq
  released := ⟨Cursor.isOpen_close _, (Cursor.failure_close _).trans h.cursor.failure_eq⟩
  slot_eq := (Cursor.slot_close _).trans hslot
  location_eq := (Cursor.location_close _).trans h.cursor.location_eq

/-- Where a lexer is in a run after it has delivered tokens, if it has met no error. -/
inductive Standing (fresh : Lexer) (taken : List Token) : Lexer → Prop where
  | running {lx : Lexer} : fresh.Delivers taken lx → Standing fresh taken lx
  | closed {lx : Lexer} : fresh.Delivers taken lx → Standing fresh taken lx.close
  | spent {lx : Lexer} : lx.Spent none → Standing fresh taken lx

namespace Standing

theorem close (h : Standing fresh taken lx) : Standing fresh taken lx.close := by
  cases h with
  | running hrun => exact .closed hrun
  | @closed lx hrun =>
    have hclosed : lx.close.close = lx.close := close_of_not_isOpen (Cursor.isOpen_close _)
    rw [hclosed]
    exact .closed hrun
  | spent hspent =>
    rw [hspent.close_eq]
    exact .spent hspent

theorem next (hfresh : fresh.Before keepNewline loc r) (h : Standing fresh taken lx)
    (hok : lx.next.1.isOk = true) :
    Standing fresh (taken ++ (tokenOf lx.next.1).toList) lx.next.2 := by
  have hstays : ∀ {lx : Lexer}, lx.Spent none →
      Standing fresh (taken ++ (tokenOf lx.next.1).toList) lx.next.2 := by
    intro lx hspent
    rw [hspent.next_eq]
    exact .spent hspent
  cases h with
  | running hrun =>
    obtain ⟨ps, rest, -, -, hlx⟩ := hrun.cuts hfresh
    rcases hanswer : lx.next.1 with p | _ | t
    · rw [hanswer] at hok
      cases hok
    · exact .spent (hlx.spent_of_none hanswer)
    · exact .running (hrun.concat (Prod.ext hanswer rfl))
  | @closed lx hrun =>
    obtain ⟨ps, rest, -, -, hlx⟩ := hrun.cuts hfresh
    cases hslot : lx.cursor.slot with
    | none => exact hstays (hlx.spent_close hslot)
    | some c =>
      have hleft := hlx.oneLeft_close hslot
      have hspent := hleft.next
      rcases loneAnswer_cases (loc.after (sources ps)) c with ⟨t, -, hproblem⟩ | ⟨e, he, -⟩
      · rw [hproblem] at hspent
        exact .spent hspent
      · rw [hleft.answer_next, he] at hok
        cases hok
  | spent hspent => exact hstays hspent

theorem delivers (hfresh : fresh.Before keepNewline loc r) (h : Standing fresh taken lx)
    (hts : lx.Delivers ts lx') : Standing fresh (taken ++ ts) lx' := by
  induction hts generalizing taken with
  | nil lx => rwa [List.append_nil]
  | @cons lx lx1 lx' t ts hnext _ ih =>
    have hone := h.next hfresh (by rw [hnext]; rfl)
    rw [hnext] at hone
    rw [List.append_cons]
    exact ih hone

/-- A call without a token releases what a pull or an iteration releases again. -/
theorem ended (hfresh : fresh.Before keepNewline loc r) (h : Standing fresh taken lx)
    (hnone : lx.next.1 = .ok none) : Standing fresh taken lx.next.2.close := by
  have hnext := h.next hfresh (by rw [hnone]; rfl)
  rw [hnone] at hnext
  simpa [tokenOf] using hnext.close

/-- Behind the tokens, the stream that is released leaves a character of the text or nothing. -/
theorem close_cases {text : List Char} {filename : String}
    (hfresh : fresh.Before keepNewline (.start filename) text)
    (hempty : fresh.cursor.slot = none) (h : Standing fresh taken lx) :
    (lx.cursor.slot = none ∧ lx.close.Spent none) ∨
    ∃ c rest t, lx.cursor.slot = some c ∧ taken.getLast? = some t ∧
      t.kind.peeks keepNewline = true ∧
      text = covered keepNewline text taken ++ c :: rest ∧
      lx.close.OneLeft (.behind filename (covered keepNewline text taken)) c := by
  -- It does not matter whether the stream was released before.
  have hrunning : ∀ {lx : Lexer}, fresh.Delivers taken lx →
      (lx.cursor.slot = none ∧ lx.close.Spent none) ∨
      ∃ c rest t, lx.cursor.slot = some c ∧ taken.getLast? = some t ∧
        t.kind.peeks keepNewline = true ∧
        text = covered keepNewline text taken ++ c :: rest ∧
        lx.close.OneLeft (.behind filename (covered keepNewline text taken)) c := by
    intro lx hrun
    obtain ⟨ps, rest, hps, rfl, hlx, hlast⟩ := hrun.left hfresh
    cases hslot : lx.cursor.slot with
    | none => exact .inl ⟨rfl, hlx.spent_close hslot⟩
    | some c =>
      right
      have hne : located (.start filename) ps ≠ [] := by
        intro hnil
        rw [hnil] at hrun
        cases hrun
        rw [hempty] at hslot
        cases hslot
      have ht := List.getLast?_eq_some_getLast hne
      have hleft := hlast _ ht
      unfold Cursor.Left at hleft
      split at hleft
      · next hpeeks =>
        have hhead : rest.head? = some c := hleft.slot_eq.symm.trans hslot
        obtain ⟨rest, rfl⟩ := List.head?_eq_some_iff.1 hhead
        refine ⟨c, rest, _, rfl, ht, hpeeks, ?_, ?_⟩
        · rw [hps.covered_located, ← hps.eq_sources_append]
        · rw [hps.covered_located, ← Location.start_after]
          exact hlx.oneLeft_close hslot
      · rw [hleft.slot_eq] at hslot
        cases hslot
  cases h with
  | running hrun => exact hrunning hrun
  | @closed lx hrun =>
    have hclosed : lx.close.close = lx.close := close_of_not_isOpen (Cursor.isOpen_close _)
    have hslot : lx.close.cursor.slot = lx.cursor.slot := Cursor.slot_close _
    rw [hclosed, hslot]
    exact hrunning hrun
  | spent hspent =>
    rw [hspent.close_eq]
    exact .inl ⟨hspent.cursor.slot_eq, hspent⟩

end Standing

end Lexer

namespace Session

open Lexer

variable {s : Shared} {op : LexerOp} {ops : List LexerOp} {fresh : Lexer} {keepNewline : Bool}
  {loc : Location} {r : List Char} {taken : List Token} {id : Nat}

/-! ## §3. Sessions -/

/-- Does the operation take a character from the cursor, or give one back? -/
def LexerOp.moves : LexerOp → Bool
  | .cursor .next | .cursor (.giveBack _) => true
  | _ => false

theorem isOk_of_map {α β : Type} {f : α → β} {answer : Except Problem α}
    (h : (answer.map f).isOk = true) : answer.isOk = true := by
  cases answer with
  | error p => cases h
  | ok a => rfl

theorem standing_perform (hfresh : fresh.Before keepNewline loc r) (hs : s.Sound)
    (h : Standing fresh taken s.lexer) (hop : op.moves = false)
    (hok : (op.perform s).1.isOk = true) :
    Standing fresh (taken ++ op.taken s) (op.perform s).2.lexer := by
  have htaken : op.calls = false → op.taken s = [] := by
    intro hcalls
    cases op with
    | next => cases hcalls
    | drain => cases hcalls
    | advance id => cases hcalls
    | _ => rfl
  have heffect := hs.effect op
  generalize (op.perform s).1 = reply, (op.perform s).2.lexer = lx at heffect hok ⊢
  cases heffect with
  | call => exact h.next hfresh (isOk_of_map hok)
  | drain =>
    obtain ⟨ts, problem, lx', hdelivers, hending⟩ := Lexer.exists_finishes s.lexer
    have hcollect := hdelivers.collect hending false
    have hresult := isOk_of_map hok
    have htokens : LexerOp.drain.taken s = ts := by simp [LexerOp.taken, hcollect]
    rw [htokens, hcollect]
    cases problem with
    | none => exact (h.delivers hfresh hdelivers).ended hfresh hending
    | some p =>
      rw [hcollect] at hresult
      cases hresult
  | @pull id hlive =>
    -- A pull skips tokens, makes one more call, and releases the stream if that brings none.
    obtain ⟨skipped, lx', hskipped, -, hanswer, hpulled, hleft⟩ :=
      exists_pulled (s.iterator id).screens s.lexer
    have hnext := isOk_of_map hok
    rw [hanswer] at hnext
    have hstanding := h.delivers hfresh hskipped
    rw [LexerOp.taken, TokenIterator.taken_of_live (hs id) hlive, hpulled, ← List.append_assoc]
    rcases hleft with hleft | ⟨-, hleft⟩
    · rw [hleft]
      exact hstanding.next hfresh hnext
    · rw [hleft]
      exact (hstanding.next hfresh hnext).close
  | ended hfinished =>
    rw [LexerOp.taken, TokenIterator.taken_of_finished hfinished, List.append_nil]
    exact h
  | quiet hcalls =>
    rw [htaken hcalls, List.append_nil]
    exact h
  | release hcalls =>
    rw [htaken hcalls, List.append_nil]
    exact h.close
  | @cursor cursorOp =>
    rw [htaken rfl, List.append_nil]
    cases cursorOp with
    | next => cases hop
    | giveBack c => cases hop
    | close => exact h.close
    | location => exact h
    | enter => exact h
    | leave => exact h.close

/-- A session without an error stands in the run with all the tokens that were taken. -/
theorem standing_after (hfresh : fresh.Before keepNewline loc r) (hs : s.Sound)
    (h : Standing fresh taken s.lexer) (hops : ∀ op ∈ ops, op.moves = false)
    (hok : ∀ reply ∈ play LexerOp.perform ops s, reply.1.isOk = true) :
    Standing fresh (taken ++ takenAlong ops s) (after LexerOp.perform ops s).lexer := by
  induction ops generalizing s taken with
  | nil =>
    rw [takenAlong, List.append_nil]
    exact h
  | cons op ops ih =>
    obtain ⟨hop, hops⟩ := List.forall_mem_cons.1 hops
    obtain ⟨hreply, hok⟩ := List.forall_mem_cons.1 hok
    rw [takenAlong, ← List.append_assoc]
    exact ih (hs.perform op) (standing_perform hfresh hs h hop hreply) hops hok

/-- Does the operation, after other ones, close the lexer, its cursor or an iterator that was
    started? -/
def Closes (ops : List LexerOp) (fresh : Shared) : LexerOp → Prop
  | .close | .leave => True
  | .stop id | .iterate id _ | .screen id => Started id ops fresh
  | .cursor cursorOp => cursorOp.closes = true
  | .next | .enter | .drain | .advance _ => False

theorem lexer_perform_of_closes {fresh : Shared} (hs : fresh.Sound) (h : Closes ops fresh op) :
    (op.perform (after LexerOp.perform ops fresh)).2.lexer =
      (after LexerOp.perform ops fresh).lexer.close := by
  have hclose : ∀ {id : Nat}, Started id ops fresh →
      (((after LexerOp.perform ops fresh).iterator id).close
        (after LexerOp.perform ops fresh).lexer).2 = (after LexerOp.perform ops fresh).lexer.close :=
    fun hstarted => (resting_of_started hs hstarted).lexer_close (hs.after ops)
  cases op with
  | next => exact h.elim
  | enter => exact h.elim
  | drain => exact h.elim
  | advance id => exact h.elim
  | close => rfl
  | leave => rfl
  | stop id => exact hclose h
  | iterate id screened => exact hclose h
  | screen id => exact hclose h
  | cursor cursorOp =>
    cases cursorOp with
    | close => rfl
    | leave => rfl
    | next => cases h
    | giveBack c => cases h
    | location => cases h
    | enter => cases h

/-! ## §4. The whole session -/

/-- Let a session call a lexer over a text, directly and by iterators, without an error, and then
    close it in any way.  If there is a character in the slot it is the one behind the last token,
    which is of a kind that looks at it.

    From the release on, as long as nothing is given back, at most one more token is counted.  If
    the slot was empty every call reports the end.  If there was a character, the first call is
    answered by the character alone, where it stands in the text; later calls report the end if it
    was a token, and otherwise the error about it. -/
theorem closing_cuts (text filename : String) (keepNewline : Bool) (ops : List LexerOp)
    (hops : ∀ op ∈ ops, op.moves = false)
    (hok : ∀ reply ∈ play LexerOp.perform ops ⟨.ofText text filename keepNewline, []⟩,
      reply.1.isOk = true) :
    let fresh : Shared := ⟨.ofText text filename keepNewline, []⟩
    let s := after LexerOp.perform ops fresh
    let taken := takenAlong ops fresh
    let passed := covered keepNewline text.toList taken
    let loc := Location.behind filename passed
    (∀ c, s.lexer.cursor.slot = some c →
      (∃ t, taken.getLast? = some t ∧ t.kind.peeks keepNewline = true) ∧
      (∃ rest, text.toList = passed ++ c :: rest) ∧ s.lexer.cursor.location = loc) ∧
    ∀ op, Closes ops fresh op →
      let u := (op.perform s).2
      u.lexer.cursor.slot = s.lexer.cursor.slot ∧
      ∀ later, (∀ c, .cursor (.giveBack c) ∉ later) →
        let v := after LexerOp.perform later u
        let reply := (LexerOp.next.perform v).1
        v.lexer.cursor.isOpen = false ∧ v.lexer.tokenCount ≤ s.lexer.tokenCount + 1 ∧
        (s.lexer.cursor.slot = none → reply = .ok (.token none)) ∧
        ∀ c, s.lexer.cursor.slot = some c → .cursor .next ∉ later →
          (¬ Called later u → reply = (loneAnswer loc c).map .token) ∧
          (Called later u → reply = (ending (loneProblem loc c)).map .token) := by
  intro fresh s taken passed loc
  have hfresh := before_ofText text filename keepNewline
  have hstanding : Standing (.ofText text filename keepNewline) taken s.lexer := by
    have hstart := Standing.running (Delivers.nil (ofText text filename keepNewline))
    exact standing_after hfresh (Shared.sound_fresh _) hstart hops hok
  have hcases := hstanding.close_cases hfresh rfl
  refine ⟨?_, ?_⟩
  · intro c hslot
    rcases hcases with ⟨hnone, -⟩ | ⟨d, rest, t, hsome, ht, hpeeks, htext, hleft⟩
    · rw [hnone] at hslot
      cases hslot
    · rw [hsome] at hslot
      cases hslot
      refine ⟨⟨t, ht, hpeeks⟩, ⟨rest, htext⟩, ?_⟩
      exact (Cursor.location_close _).symm.trans hleft.location_eq
  · intro op hop u
    have hu : u.lexer = s.lexer.close := lexer_perform_of_closes (Shared.sound_fresh _) hop
    have hsound : u.Sound := ((Shared.sound_fresh _).after ops).perform op
    have hslot : u.lexer.cursor.slot = s.lexer.cursor.slot := by
      rw [hu]
      exact Cursor.slot_close _
    have hcount : u.lexer.tokenCount = s.lexer.tokenCount := by
      rw [hu]
      rfl
    refine ⟨hslot, ?_⟩
    intro later hlater v reply
    have hclosed : v.lexer.cursor.isOpen = false := by
      apply Cursor.kept_not_isOpen.onLexers.after hsound
      rw [hu]
      exact Cursor.isOpen_close _
    refine ⟨hclosed, ?_⟩
    rw [← hu] at hcases
    rcases hcases with ⟨hnone, hspent⟩ | ⟨c, rest, t, hsome, -, -, -, hleft⟩
    · have hv : v.lexer = u.lexer := hspent.lexer_after hsound later hlater
      refine ⟨?_, ?_, ?_⟩
      · rw [hv, hcount]
        exact Nat.le_succ _
      · intro _
        rw [← hv] at hspent
        exact hspent.reply
      · intro c hsome
        rw [hnone] at hsome
        cases hsome
    · refine ⟨?_, ?_, ?_⟩
      · rw [← hcount]
        exact tokenCount_after_of_oneLeft hsound hleft later hlater
      · intro hnone
        rw [hnone] at hsome
        cases hsome
      · intro d hd hread
        rw [hsome] at hd
        cases hd
        exact reply_after_of_oneLeft hsound hleft later hlater hread

/-- An iterator is closed while a blank waits, and the blank is still handed out; a quote that
    waits is the beginning of a literal that is never closed. -/
theorem closing_cuts_slot :
    let blank : Shared := ⟨.ofText "ab cd" "f" false, []⟩
    let quoted : Shared := ⟨.ofText "a'b'" "f" false, []⟩
    let s := after LexerOp.perform [.iterate 0 false, .advance 0, .stop 0] blank
    let u := after LexerOp.perform [.next, .cursor .close] quoted
    let unterminated := LexError.unterminatedString (some ⟨"f", 1, 2⟩)
    s.lexer.cursor.slot = some ' ' ∧ s.lexer.cursor.location = ⟨"f", 1, 3⟩ ∧
    (LexerOp.next.perform s).1 = .ok (.token (some ⟨.whitespace, " ", ⟨"f", 1, 3⟩⟩)) ∧
    (LexerOp.next.perform (after LexerOp.perform [.iterate 1 true, .advance 1] s)).1 =
      .ok (.token none) ∧
    (LexerOp.next.perform u).1 = .error (.lexical unterminated) ∧
    (LexerOp.next.perform (after LexerOp.perform [.drain, .enter] u)).1 =
      .error (.lexical unterminated) := by
  intro blank quoted s u unterminated
  have hblank := closing_cuts "ab cd" "f" false [.iterate 0 false, .advance 0] (by decide)
    (by decide +kernel)
  have hquoted := closing_cuts "a'b'" "f" false [.next] (by decide) (by decide +kernel)
  obtain ⟨hslot, hstopped⟩ := hblank.2 (.stop 0) (show Started 0 _ _ by decide +kernel)
  obtain ⟨-, hclosed⟩ := hquoted.2 (.cursor .close) rfl
  have hstays := fun (later : List LexerOp) (hback : ∀ c, .cursor (.giveBack c) ∉ later) =>
    (hstopped later hback).2.2.2 ' ' (by decide +kernel)
  have hquote := fun (later : List LexerOp) (hback : ∀ c, .cursor (.giveBack c) ∉ later) =>
    (hclosed later hback).2.2.2 '\'' (by decide +kernel)
  refine ⟨hslot.trans (by decide +kernel), by decide +kernel, ?_, ?_, ?_, ?_⟩
  · exact ((hstays [] (by simp) (by simp)).1 id).trans (by decide +kernel)
  · exact ((hstays [.iterate 1 true, .advance 1] (by simp) (by simp)).2
      (by decide +kernel)).trans (by decide +kernel)
  · exact ((hquote [] (by simp) (by simp)).1 id).trans (by decide +kernel)
  · exact ((hquote [.drain, .enter] (by simp) (by simp)).2
      (by decide +kernel)).trans (by decide +kernel)

end Session

end RpalLex
