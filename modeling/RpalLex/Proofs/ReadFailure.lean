import RpalLex.Proofs.LongerStream

/-! # Reads that fail

  A stream delivers a text, and then its next read fails for good.  The calls
  of a lexer over this stream are compared with those over the text alone.

  Both runs go side by side (`Abreast`) through at most two phases.  While
  they read, they are in the same state and deliver the same tokens.  Then
  either both stop at the same invalid character, or the first call that
  looks behind the text meets the end in one run and the failure in the other
  one, which reports it from then on.  So no token is ever cut short, and the
  failure never passes for the end of the text.

  Main statements: `Abreast.next` (one call keeps the runs side by side) and
  `answers_of_failing_stream` (what every call is answered). -/

namespace RpalLex

/-- What a read reports that fails for good at a location. -/
def readFailure (loc : Location) (f : Fault) : LexError :=
  .unreadable ("cannot read '" ++ loc.filename ++ "': " ++ f.message) (some loc) none
    (some (.fault f.kind))

/-! ## §1. The failing read -/

theorem Cursor.AtTail.next_fault {f : Fault} {rest : List Read} {goal : Location} {cur : Cursor}
    (h : cur.AtTail (.fault f :: rest) goal) (hf : f.kind.endsReading = true) :
    ∃ cur', cur.next = (.error (.lexical (readFailure goal f)), cur') := by
  refine ⟨cur.readStream.2, ?_⟩
  have hfile : cur.filename = goal.filename := congrArg Location.filename h.location_eq
  rw [h.next_eq]
  simp [readStream, Stream.read, h.script_eq, hf, failureOf, Failure.toError, readFailure,
    h.location_eq, hfile]

namespace Lexer

variable {lx lx' : Lexer} {tail : List Read} {goal : Location} {failure : LexError}
  {ts : List Token}

/-- A lexer at the beginning of a stream. -/
def ofStream (stream : Stream) (filename : String) (keepNewline : Bool) : Lexer :=
  { cursor := { filename, stream }, keepNewline }

/-! ## §2. Two runs side by side -/

/-- How a run over a text and a run over a stream that fails behind it stand to each other. -/
inductive Abreast (tail : List Read) (goal : Location) (failure : LexError) :
    Lexer → Lexer → Prop where
  /-- Neither has looked behind the text. -/
  | reading {lx : Lexer} : lx.UpTo goal → Abreast tail goal failure lx (lx.withTail tail)
  /-- Both have met the same invalid character. -/
  | spoiled {lx lx' : Lexer} {c : Char} {loc : Location} {context : Option String} :
      lx.cursor.stream.sawEnd = false →
      lx.failure = some (.invalidCharacter c (some loc) context) →
      lx'.failure = some (.invalidCharacter c (some loc) context) →
      Abreast tail goal failure lx lx'
  /-- One has met the end, and the other one the failure. -/
  | parted {lx lx' : Lexer} :
      lx.cursor.stream.sawEnd = true → lx'.failure = some failure →
      Abreast tail goal failure lx lx'

/-- How the next calls of the two runs are answered. -/
inductive Answered (failure : LexError) (lx lx' : Lexer) : Prop where
  | token {t : Token} :
      lx.next.2.cursor.stream.sawEnd = false →
      lx.next.1 = .ok (some t) → lx'.next.1 = .ok (some t) → Answered failure lx lx'
  | invalid {c : Char} {loc : Location} {context : Option String} :
      lx.next.2.cursor.stream.sawEnd = false →
      lx.next.1 = .error (.lexical (.invalidCharacter c (some loc) context)) →
      lx'.next.1 = .error (.lexical (.invalidCharacter c (some loc) context)) →
      Answered failure lx lx'
  /-- Whatever the first run answers at the end of its text. -/
  | failed :
      lx.next.2.cursor.stream.sawEnd = true →
      lx'.next.1 = .error (.lexical failure) → Answered failure lx lx'

/-- A cursor that has come to the tail fails. -/
def Failing (tail : List Read) (goal : Location) (failure : LexError) : Prop :=
  ∀ last : Cursor, last.AtTail tail goal →
    ∃ last', last.next = (.error (.lexical failure), last')

theorem failing_fault {f : Fault} (hf : f.kind.endsReading = true) (rest : List Read)
    (goal : Location) : Failing (.fault f :: rest) goal (readFailure goal f) :=
  fun _ hlast => hlast.next_fault hf

namespace Abreast

theorem next (h : Abreast tail goal failure lx lx') (hfails : Failing tail goal failure) :
    Abreast tail goal failure lx.next.2 lx'.next.2 ∧ Answered failure lx lx' := by
  cases h with
  | reading hlx =>
    rcases hlx.next tail with ⟨t, lx1, hnext, hnext', hlx1⟩ |
      ⟨c, loc, context, hnext, hnext', hseen⟩ | ⟨hseen, last, hlast, hfail⟩
    · have hseen : lx.next.2.cursor.stream.sawEnd = false := by
        rw [hnext]
        exact hlx1.cursor.sawEnd_eq
      constructor
      · rw [hnext, hnext']
        exact .reading hlx1
      · exact .token hseen (congrArg Prod.fst hnext) (congrArg Prod.fst hnext')
    · constructor
      · exact .spoiled hseen (failure_next hnext) (failure_next hnext')
      · exact .invalid hseen hnext hnext'
    · -- The first call that looks behind the text.
      obtain ⟨last', hlast'⟩ := hfails last hlast
      have hanswer : (lx.withTail tail).next.1 = .error (.lexical failure) := by
        have hfailure : (lx.withTail tail).failure = none := hlx.failure_eq
        rw [answer_next hfailure]
        exact congrArg Prod.fst (hfail _ last' hlast')
      constructor
      · exact .parted hseen (failure_next hanswer)
      · exact .failed hseen hanswer
  | spoiled hseen he he' =>
    have hnext := next_of_failure he
    have hnext' := next_of_failure he'
    constructor
    · rw [hnext, hnext']
      exact .spoiled hseen he he'
    · refine .invalid ?_ (congrArg Prod.fst hnext) (congrArg Prod.fst hnext')
      rw [hnext]
      exact hseen
  | parted hseen he' =>
    have hseen' : lx.next.2.cursor.stream.sawEnd = true :=
      Cursor.preserved_sawEnd.afterCall (by simp) lx hseen
    have hnext' := next_of_failure he'
    constructor
    · rw [hnext']
      exact .parted hseen' he'
    · exact .failed hseen' (congrArg Prod.fst hnext')

theorem afterCalls (h : Abreast tail goal failure lx lx') (hfails : Failing tail goal failure)
    (n : Nat) : Abreast tail goal failure (lx.afterCalls n) (lx'.afterCalls n) := by
  induction n generalizing lx lx' with
  | zero => exact h
  | succ n ih => exact ih (h.next hfails).1

theorem answered_afterCalls (h : Abreast tail goal failure lx lx')
    (hfails : Failing tail goal failure) (n : Nat) :
    Answered failure (lx.afterCalls n) (lx'.afterCalls n) :=
  ((h.afterCalls hfails n).next hfails).2

end Abreast

/-- A tail that fails gives no tokens, so the tokens come from every stream that begins with the
    text. -/
theorem UpTo.delivers_withTail (h : lx.UpTo goal) (hfails : Failing tail goal failure)
    (hrun : (lx.withTail tail).Delivers ts lx') (other : List Read) :
    ∃ lx'', (lx.withTail other).Delivers ts lx'' := by
  induction ts generalizing lx with
  | nil => exact ⟨lx.withTail other, .nil _⟩
  | cons t ts ih =>
    cases hrun with
    | cons hfirst hrest =>
      have hanswer : (lx.withTail tail).next.1 = .ok (some t) := congrArg Prod.fst hfirst
      rcases h.next tail with ⟨u, lx1, hnext, hnext', hlx1⟩ | ⟨c, loc, context, -, hnext', -⟩ |
        ⟨-, last, hlast, hfail⟩
      · rw [hnext'] at hfirst
        cases hfirst
        obtain ⟨lx'', hdelivers⟩ := ih hlx1 hrest
        exact ⟨lx'', .cons (h.next_token hnext hlx1 other) hdelivers⟩
      · rw [hnext'] at hanswer
        cases hanswer
      · obtain ⟨last', hlast'⟩ := hfails last hlast
        have hfailure : (lx.withTail tail).failure = none := h.failure_eq
        rw [answer_next hfailure, congrArg Prod.fst (hfail _ last' hlast')] at hanswer
        cases hanswer

end Lexer

/-! ## §3. A stream that fails behind a text -/

/-- Let a stream deliver a text and then fail for good.  As long as the calls of a lexer over the
    text alone do not look behind it, a lexer over the stream answers them in the same way, with
    tokens or for ever with an invalid character.  The first call that does is answered by the
    failure, at the location behind the text, and so are all calls after it.  The end is never
    reported, and the tokens delivered are the first ones of every text that goes on. -/
theorem answers_of_failing_stream (p filename : String) (keepNewline : Bool) (f : Fault)
    (rest : List Read) (hf : f.kind.endsReading = true) :
    let clean := Lexer.ofText p filename keepNewline
    let failing :=
      Lexer.ofStream ⟨p.toList.map .char ++ .fault f :: rest, []⟩ filename keepNewline
    let failure := readFailure (.behind filename p.toList) f
    (∀ n, (clean.afterCalls (n + 1)).cursor.stream.sawEnd = false →
      (failing.afterCalls n).next.1 = (clean.afterCalls n).next.1 ∧
      ((∃ t, (clean.afterCalls n).next.1 = .ok (some t)) ∨
        ∃ c loc context, ∀ m,
          (clean.afterCalls (n + m)).next.1 =
            .error (.lexical (.invalidCharacter c (some loc) context)) ∧
          (failing.afterCalls (n + m)).next.1 =
            .error (.lexical (.invalidCharacter c (some loc) context)))) ∧
    (∀ n, (clean.afterCalls (n + 1)).cursor.stream.sawEnd = true →
      ∀ m, (failing.afterCalls (n + m)).next.1 = .error (.lexical failure)) ∧
    (∀ n, (failing.afterCalls n).next.1 ≠ .ok none) ∧
    ∀ q ts lx, failing.Delivers ts lx →
      ∃ lx', (Lexer.ofText (p ++ q) filename keepNewline).Delivers ts lx' := by
  intro clean failing failure
  have hclean : clean.UpTo (.behind filename p.toList) := Lexer.upTo_ofText p filename keepNewline
  have hfails := Lexer.failing_fault hf rest (.behind filename p.toList)
  have habreast : Lexer.Abreast (.fault f :: rest) (.behind filename p.toList) failure
      clean failing := .reading hclean
  refine ⟨?_, ?_, ?_, ?_⟩
  · intro n hunseen
    rw [Lexer.afterCalls_add] at hunseen
    cases habreast.answered_afterCalls hfails n with
    | token _ ht ht' => exact ⟨ht'.trans ht.symm, .inl ⟨_, ht⟩⟩
    | @invalid c loc context _ he he' =>
      refine ⟨he'.trans he.symm, .inr ⟨c, loc, context, ?_⟩⟩
      intro m
      rw [Lexer.afterCalls_add, Lexer.afterCalls_add]
      exact ⟨Lexer.answer_afterCalls_of_error he m, Lexer.answer_afterCalls_of_error he' m⟩
    | failed hseen _ => exact absurd (hseen.symm.trans hunseen) (by simp)
  · intro n hseen m
    rw [Lexer.afterCalls_add] at hseen
    have hfailed : (failing.afterCalls n).next.1 = .error (.lexical failure) := by
      cases habreast.answered_afterCalls hfails n with
      | token hunseen _ _ => exact absurd (hseen.symm.trans hunseen) (by simp)
      | invalid hunseen _ _ => exact absurd (hseen.symm.trans hunseen) (by simp)
      | failed _ hanswer => exact hanswer
    rw [Lexer.afterCalls_add]
    exact Lexer.answer_afterCalls_of_error hfailed m
  · intro n hnone
    cases habreast.answered_afterCalls hfails n with
    | token _ _ ht' => rw [ht'] at hnone; cases hnone
    | invalid _ _ he' => rw [he'] at hnone; cases hnone
    | failed _ hanswer => rw [hanswer] at hnone; cases hnone
  · intro q ts lx hrun
    have hwhole : Lexer.ofText (p ++ q) filename keepNewline =
        clean.withTail (q.toList.map .char) := by
      simp [clean, Lexer.ofText, Lexer.withTail, Cursor.withTail, Cursor.ofText, Stream.ofText]
    rw [hwhole]
    exact hclean.delivers_withTail hfails hrun (q.toList.map .char)

/-- The text ends inside a literal; the stream fails there, and a read after that would complete
    the literal. -/
theorem answers_of_failing_stream_open_literal :
    let clean := Lexer.ofText "let 'a" "f" false
    let failing := Lexer.ofStream
      ⟨"let 'a".toList.map .char ++ [.fault ⟨.transfer, "gone"⟩, .char '\''], []⟩ "f" false
    FaultKind.transfer.endsReading = true ∧
    failing.next.1 = .ok (some ⟨.reserved, "let", ⟨"f", 1, 1⟩⟩) ∧
    (clean.afterCalls 2).next.1 =
      .error (.lexical (.unterminatedString (some ⟨"f", 1, 5⟩))) ∧
    (∀ m, (failing.afterCalls (2 + m)).next.1 = .error (.lexical (.unreadable
      "cannot read 'f': gone" (some ⟨"f", 1, 7⟩) none (some (.fault .transfer))))) ∧
    ∃ lx, (Lexer.ofText "let 'a'" "f" false).Delivers
      [⟨.reserved, "let", ⟨"f", 1, 1⟩⟩, ⟨.whitespace, " ", ⟨"f", 1, 4⟩⟩] lx := by
  obtain ⟨hsame, hfailed, -, hprefix⟩ := answers_of_failing_stream "let 'a" "f" false
    ⟨.transfer, "gone"⟩ [.char '\''] rfl
  refine ⟨rfl, ?_, by decide +kernel, ?_, ?_⟩
  · have hfirst := (hsame 0 (by decide +kernel)).1
    exact hfirst.trans (by decide +kernel)
  · intro m
    have hfailure : readFailure (.behind "f" "let 'a".toList) ⟨.transfer, "gone"⟩ = .unreadable
        "cannot read 'f': gone" (some ⟨"f", 1, 7⟩) none (some (.fault .transfer)) := by
      decide +kernel
    rw [← hfailure]
    exact hfailed 2 (by decide +kernel) m
  · exact hprefix "'" _ _ (.cons_of_answer (by decide +kernel)
      (.cons_of_answer (by decide +kernel) (.nil _)))

end RpalLex
