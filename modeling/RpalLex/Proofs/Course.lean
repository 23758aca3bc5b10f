import RpalLex.Proofs.Sessions

/-! # The course of a run

  Calls, pulls and turns of iterators take tokens from a lexer; a pull or a
  turn may take several and deliver only the last one (§1).

  Over a text every one of them takes the next tokens of one and the same run
  (`OnCourse`).  A pull releases the stream when it delivers no token, but
  over a text the call before has released it already
  (`OverText.next_of_ending`), so this does not cut the run short for anybody
  else.

  Main statements: `exists_pulled` (what a pull takes), `taken_of_live` (what
  an iterator takes), `OnCourse.next` and `OnCourse.pull`. -/

namespace RpalLex

/-! ## §1. The tokens that are taken -/

namespace Lexer

variable {lx lx' : Lexer} {screened : Bool} {t : Token} {ts : List Token}

/-- The tokens that the calls of a pull bring. -/
def pulled (screened : Bool) (lx : Lexer) : List Token :=
  match _h : lx.next with
  | (.ok (some t), lx') => t :: if screened && t.isDiscardable then pulled screened lx' else []
  | (.ok none, _) => []
  | (.error _, _) => []
termination_by lx.size
decreasing_by exact size_next_lt ‹_›

theorem pulled_eq (screened : Bool) (lx : Lexer) :
    lx.pulled screened = match lx.next with
      | (.ok (some t), lx') => t :: if screened && t.isDiscardable then lx'.pulled screened else []
      | (.ok none, _) => []
      | (.error _, _) => [] := by
  rw [pulled]
  split <;> simp_all

theorem Delivers.pulled (h : lx.Delivers ts lx') (hskipped : Token.passed screened ts = []) :
    lx.pulled screened = ts ++ lx'.pulled screened := by
  induction h with
  | nil lx => rfl
  | @cons lx lx1 lx' t ts hnext _ ih =>
    rw [Token.passed_cons] at hskipped
    cases hskip : screened && t.isDiscardable with
    | true =>
      rw [hskip] at hskipped
      rw [pulled_eq, hnext]
      simp only [hskip, if_true, ih hskipped, List.cons_append]
    | false =>
      rw [hskip] at hskipped
      cases hskipped

/-- A pull skips some tokens, and then it takes the token that it delivers, if there is one. -/
theorem exists_pulled (screened : Bool) (lx : Lexer) : ∃ skipped lx', lx.Delivers skipped lx' ∧
    Token.passed screened skipped = [] ∧ (lx.pull screened).1 = lx'.next.1 ∧
    lx.pulled screened = skipped ++ (tokenOf lx'.next.1).toList ∧
    ((lx.pull screened).2 = lx'.next.2 ∨
      tokenOf lx'.next.1 = none ∧ (lx.pull screened).2 = lx'.next.2.close) := by
  obtain ⟨skipped, lx', hskipped, hpassed, hlast⟩ := exists_pull screened lx
  refine ⟨skipped, lx', hskipped, hpassed, ?_⟩
  rw [hskipped.pulled hpassed, pulled_eq]
  rcases hlast with ⟨t, hnext, hkept, hpull⟩ | ⟨problem, hnext, hpull⟩
  · have hwhole : lx'.next = (.ok (some t), lx'.next.2) := Prod.ext hnext rfl
    rw [hpull, hwhole]
    simp [hkept, tokenOf]
  · have hwhole : lx'.next = (ending problem, lx'.next.2) := Prod.ext hnext rfl
    rw [hpull, hwhole]
    cases problem with
    | none => simp [ending, tokenOf]
    | some p => simp [ending, tokenOf]

end Lexer

namespace TokenIterator

variable {it : TokenIterator}

/-- The tokens that a direct iterator takes when it is advanced. -/
def Direct.taken (it : Direct) (lx : Lexer) : List Token :=
  match it.phase with
  | .finished => []
  | _ => lx.pulled it.screened

/-- The tokens that are taken through the iterator beneath until one is not discardable. -/
def Screening.skipTaken (inner : Direct) (lx : Lexer) : List Token :=
  match _h : inner.next lx with
  | (.ok (some t), inner', lx') =>
    inner.taken lx ++ if t.isDiscardable then skipTaken inner' lx' else []
  | (.ok none, _, _) => inner.taken lx
  | (.error _, _, _) => inner.taken lx
termination_by lx.size
decreasing_by exact Direct.size_next_lt ‹_›

/-- The tokens that an iterator takes when it is advanced. -/
def taken : TokenIterator → Lexer → List Token
  | direct it, lx => it.taken lx
  | screening it, lx =>
    match it.phase with
    | .finished => []
    | _ => Screening.skipTaken it.inner lx

theorem Direct.taken_of_live {it : Direct} (h : it.phase ≠ .finished) (lx : Lexer) :
    it.taken lx = lx.pulled it.screened := by
  unfold Direct.taken
  split
  · next hfinished => exact absurd hfinished h
  · rfl

theorem Screening.skipTaken_eq (inner : Direct) (lx : Lexer) :
    skipTaken inner lx = match inner.next lx with
      | (.ok (some t), inner', lx') =>
        inner.taken lx ++ if t.isDiscardable then skipTaken inner' lx' else []
      | (.ok none, _, _) => inner.taken lx
      | (.error _, _, _) => inner.taken lx := by
  rw [skipTaken]
  split <;> simp_all

/-- Skipping above an iterator that delivers everything takes what skipping while pulling takes. -/
theorem Screening.skipTaken_eq_pulled {inner : Direct} (hs : inner.screened = false)
    (hp : inner.phase ≠ .finished) (lx : Lexer) : skipTaken inner lx = lx.pulled true := by
  fun_induction Lexer.pull true lx generalizing inner with
  | case1 lx t lx' hnext hskip ih =>
    have htaken : inner.taken lx = lx.pulled false := by rw [Direct.taken_of_live hp, hs]
    have hdiscard : t.isDiscardable = true := by simpa using hskip
    have hpull : lx.pull false = (.ok (some t), lx') := Lexer.pull_of_token hnext rfl
    have hrest : skipTaken { inner with phase := .suspended } lx' = lx'.pulled true :=
      ih hs (by simp)
    rw [skipTaken_eq, Direct.next_of_unscreened hs hp, hpull, htaken, Lexer.pulled_eq,
      Lexer.pulled_eq, hnext]
    simp only [hdiscard, Bool.false_and, Bool.true_and, if_true]
    exact congrArg (t :: ·) hrest
  | case2 lx t lx' hnext hkeep =>
    have htaken : inner.taken lx = lx.pulled false := by rw [Direct.taken_of_live hp, hs]
    have hdiscard : t.isDiscardable = false := by simpa using hkeep
    have hpull : lx.pull false = (.ok (some t), lx') := Lexer.pull_of_token hnext rfl
    rw [skipTaken_eq, Direct.next_of_unscreened hs hp, hpull, htaken, Lexer.pulled_eq,
      Lexer.pulled_eq, hnext]
    simp [hdiscard]
  | case3 lx lx' hnext =>
    have htaken : inner.taken lx = lx.pulled false := by rw [Direct.taken_of_live hp, hs]
    have hpull : lx.pull false = (.ok none, lx'.close) := by rw [Lexer.pull_eq, hnext]
    rw [skipTaken_eq, Direct.next_of_unscreened hs hp, hpull, htaken, Lexer.pulled_eq,
      Lexer.pulled_eq, hnext]
  | case4 lx p lx' hnext =>
    have htaken : inner.taken lx = lx.pulled false := by rw [Direct.taken_of_live hp, hs]
    have hpull : lx.pull false = (.error p, lx'.close) := by rw [Lexer.pull_eq, hnext]
    rw [skipTaken_eq, Direct.next_of_unscreened hs hp, hpull, htaken, Lexer.pulled_eq,
      Lexer.pulled_eq, hnext]

theorem taken_of_finished (h : it.phase = .finished) (lx : Lexer) : it.taken lx = [] := by
  cases it with
  | direct it =>
    have hphase : it.phase = .finished := h
    show it.taken lx = []
    simp [Direct.taken, hphase]
  | screening it =>
    have hphase : it.phase = .finished := h
    simp [taken, hphase]

theorem taken_of_live (hs : it.Sound) (h : it.phase ≠ .finished) (lx : Lexer) :
    it.taken lx = lx.pulled it.screens := by
  cases it with
  | direct it => exact Direct.taken_of_live h lx
  | screening it =>
    have hlive : it.phase ≠ .finished := h
    have hinner : it.inner.phase ≠ .finished := by rw [hs.2 h]; exact h
    have htaken : (screening it).taken lx = Screening.skipTaken it.inner lx := by
      rw [taken]
      split
      · next hfinished => exact absurd hfinished hlive
      · rfl
    rw [htaken, Screening.skipTaken_eq_pulled hs.1 hinner lx]
    rfl

end TokenIterator

/-! ## §2. Over a text -/

namespace Lexer

variable {lx lx' : Lexer} {all taken ts : List Token} {problem problem' : Option Problem}
  {p : Problem} {screened : Bool}

/-- A text is all that will come, or an error is remembered and the stream has been released. -/
def OverText (lx : Lexer) : Prop :=
  (∃ keepNewline loc r, lx.Before keepNewline loc r) ∨
    ∃ e, lx.failure = some e ∧ lx.cursor.isOpen = false

theorem overText_ofText (text filename : String) (keepNewline : Bool) :
    (ofText text filename keepNewline).OverText :=
  .inl ⟨keepNewline, _, _, before_ofText text filename keepNewline⟩

namespace OverText

theorem isSealed (h : lx.OverText) : lx.Sealed := by
  intro hf
  rcases h with ⟨keepNewline, loc, r, hbefore⟩ | ⟨e, -, hclosed⟩
  · exact absurd hbefore.failure_eq hf
  · exact hclosed

/-- Nothing but lexical errors comes up in a text. -/
theorem exists_lexical (h : lx.OverText) (hnext : lx.next.1 = .error p) : ∃ e, p = .lexical e := by
  rcases h with ⟨keepNewline, loc, r, hbefore⟩ | ⟨e, hf, -⟩
  · obtain ⟨o, ho⟩ := exists_frontOf keepNewline r
    have hanswer := hbefore.answer_next ho
    rw [hnext] at hanswer
    cases o with
    | ended => cases hanswer
    | piece q rest => cases hanswer
    | invalid before c context => cases hanswer; exact ⟨_, rfl⟩
    | unterminated => cases hanswer; exact ⟨_, rfl⟩
  · rw [next_of_failure hf] at hnext
    cases hnext
    exact ⟨e, rfl⟩

/-- A call that brings no token leaves the stream released, and the answer stays. -/
theorem next_of_ending (h : lx.OverText) (hnext : lx.next.1 = ending problem) :
    lx.next.2.OverText ∧ lx.next.2.cursor.isOpen = false ∧ lx.next.2.Finishes [] problem := by
  cases problem with
  | none =>
    have hclosed := h.isSealed.isOpen_next (.inl hnext)
    rcases h with ⟨keepNewline, loc, r, hbefore⟩ | ⟨e, hf, -⟩
    · obtain rfl := hbefore.of_next_none hnext
      have hended := hbefore.next_ended
      exact ⟨.inl ⟨keepNewline, loc, [], hended⟩, hclosed, _, .nil _, hended.answer_next .ended⟩
    · rw [next_of_failure hf] at hnext
      cases hnext
  | some p =>
    obtain ⟨e, rfl⟩ := h.exists_lexical hnext
    have hclosed := h.isSealed.isOpen_next (.inr ⟨e, hnext⟩)
    have hanswer : lx.next.2.next.1 = .error (.lexical e) := congrArg Prod.fst (next_of_error hnext)
    exact ⟨.inr ⟨e, failure_next hnext, hclosed⟩, hclosed, _, .nil _, hanswer⟩

theorem next_of_token {t : Token} (h : lx.OverText) (hnext : lx.next.1 = .ok (some t)) :
    lx.next.2.OverText := by
  rcases h with ⟨keepNewline, loc, r, hbefore⟩ | ⟨e, hf, -⟩
  · obtain ⟨p, rest, -, -, hbefore', -⟩ := hbefore.of_next_token (Prod.ext hnext rfl)
    exact .inl ⟨keepNewline, _, rest, hbefore'⟩
  · rw [next_of_failure hf] at hnext
    cases hnext

end OverText

/-! ## §3. On course -/

/-- The lexer has given away some tokens of a run over a text, and the others are still to come. -/
structure OnCourse (all : List Token) (problem : Option Problem) (taken : List Token) (lx : Lexer) :
    Prop where
  overText : lx.OverText
  tokenCount_eq : lx.tokenCount = taken.length
  exists_rest : ∃ rest, all = taken ++ rest ∧ lx.Finishes rest problem

theorem exists_ending_of_tokenOf {answer : Except Problem (Option Token)}
    (h : tokenOf answer = none) : ∃ problem, answer = ending problem := by
  rcases answer with p | _ | t
  · exact ⟨some p, rfl⟩
  · exact ⟨none, rfl⟩
  · cases h

theorem Finishes.answer_nil (h : lx.Finishes [] problem) : lx.next.1 = ending problem := by
  obtain ⟨lx', hnil, hending⟩ := h
  cases hnil
  exact hending

namespace OnCourse

/-- The tokens taken are the first ones of the run. -/
theorem taken_eq_take (h : lx.OnCourse all problem taken) :
    taken = all.take lx.tokenCount ∧ lx.tokenCount ≤ all.length := by
  obtain ⟨rest, rfl, -⟩ := h.exists_rest
  rw [h.tokenCount_eq]
  exact ⟨List.take_left.symm, by simp⟩

/-- A call takes the token that it brings. -/
theorem next (h : lx.OnCourse all problem taken) :
    lx.next.2.OnCourse all problem (taken ++ (tokenOf lx.next.1).toList) := by
  obtain ⟨rest, hall, hrest⟩ := h.exists_rest
  have hcount : lx.next.2.tokenCount = (taken ++ (tokenOf lx.next.1).toList).length := by
    rw [tokenCount_next, h.tokenCount_eq, List.length_append]
  cases htoken : tokenOf lx.next.1 with
  | none =>
    obtain ⟨problem', hnext⟩ := exists_ending_of_tokenOf htoken
    obtain ⟨rfl, rfl⟩ := hrest.of_next_ending hnext
    obtain ⟨hover, -, hfinishes⟩ := h.overText.next_of_ending hnext
    rw [htoken] at hcount
    exact ⟨hover, hcount, [], by rw [hall]; simp, hfinishes⟩
  | some t =>
    have hnext : lx.next.1 = .ok (some t) := by
      rcases hanswer : lx.next.1 with p | u
      · rw [hanswer] at htoken
        cases htoken
      · rw [hanswer] at htoken
        exact congrArg _ htoken
    obtain ⟨rest', rfl, hrest'⟩ := hrest.of_next_token hnext
    rw [htoken] at hcount
    exact ⟨h.overText.next_of_token hnext, hcount, rest', by rw [hall]; simp, hrest'⟩

theorem delivers (h : lx.OnCourse all problem taken) (hts : lx.Delivers ts lx') :
    lx'.OnCourse all problem (taken ++ ts) := by
  induction hts generalizing taken with
  | nil lx => rwa [List.append_nil]
  | @cons lx lx1 lx' t ts hnext _ ih =>
    have hone := h.next
    rw [hnext] at hone
    rw [List.append_cons]
    exact ih hone

/-- A call that brings no token comes when all tokens are taken, and it is answered like the end of
    the run. -/
theorem all_taken (h : lx.OnCourse all problem taken) (hnone : tokenOf lx.next.1 = none) :
    taken = all ∧ lx.next.1 = ending problem ∧ lx.next.2.close = lx.next.2 := by
  obtain ⟨rest, hall, hrest⟩ := h.exists_rest
  obtain ⟨problem', hnext⟩ := exists_ending_of_tokenOf hnone
  obtain ⟨rfl, rfl⟩ := hrest.of_next_ending hnext
  obtain ⟨-, hclosed, -⟩ := h.overText.next_of_ending hnext
  rw [List.append_nil] at hall
  exact ⟨hall.symm, hnext, close_of_not_isOpen hclosed⟩

/-- When all tokens are taken, nothing more is. -/
theorem eq_nil_of_all (h : lx.OnCourse all problem (all ++ ts)) : ts = [] := by
  obtain ⟨rest, hall, -⟩ := h.exists_rest
  rw [List.append_assoc, List.self_eq_append_right] at hall
  exact (List.append_eq_nil_iff.1 hall).1

/-- When all tokens are taken, only the end of the run is answered. -/
theorem answers_of_all (h : lx.OnCourse all problem all) :
    lx.next.1 = ending problem ∧ ∀ screened, (lx.pull screened).1 = ending problem := by
  obtain ⟨rest, hall, hrest⟩ := h.exists_rest
  obtain rfl : rest = [] := List.self_eq_append_right.1 hall
  refine ⟨hrest.answer_nil, ?_⟩
  intro screened
  rw [pull_of_ending hrest.answer_nil]

/-- A pull takes the tokens that its calls bring. -/
theorem pull (h : lx.OnCourse all problem taken) (screened : Bool) :
    (lx.pull screened).2.OnCourse all problem (taken ++ lx.pulled screened) ∧
      (tokenOf (lx.pull screened).1 = none → taken ++ lx.pulled screened = all) := by
  obtain ⟨skipped, lx', hskipped, -, hanswer, hpulled, hlexer⟩ := exists_pulled screened lx
  have hcourse := h.delivers hskipped
  have hnext := hcourse.next
  rw [hpulled, hanswer, ← List.append_assoc]
  refine ⟨?_, ?_⟩
  · rcases hlexer with hlexer | ⟨hnone, hlexer⟩
    · rwa [hlexer]
    · -- The stream was released before.
      rw [hlexer, (hcourse.all_taken hnone).2.2]
      exact hnext
  · intro hnone
    rw [hnone]
    simpa using (hcourse.all_taken hnone).1

end OnCourse

end Lexer

end RpalLex
