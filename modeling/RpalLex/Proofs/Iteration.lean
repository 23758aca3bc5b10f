import RpalLex.Proofs.Runs

/-! # Runs to the end

  A run *finishes* with the call that delivers no token: at the end of the
  text or with a problem (§1).  Every run finishes, and what a run over a
  text delivers is known from the way the text is cut (§2).

  Iterating is such a run.  An iteration that screens skips the discardable
  tokens and ends in the same way (§3), so the whole of `tokenize` is known
  as well (§4).

  Main statements: `Lexer.exists_finishes` (every run finishes),
  `Finishes.collect` (what an iteration delivers, screened or not) and
  `tokenize_of_cuts` with its two companions. -/

namespace RpalLex

variable {keepNewline screened : Bool} {r rest rest' : List Char} {ps qs : List Piece}

/-! ## §1. Finished runs -/

/-- What a run ends with that has no more pieces in front of it. -/
def Front.problem (loc : Location) : Front → Option Problem
  | .invalid before c context =>
    some (.lexical (.invalidCharacter c (some (loc.after before)) context))
  | .unterminated => some (.lexical (.unterminatedString (some loc)))
  | .ended | .piece _ _ => none

namespace Lexer

variable {lx lx' : Lexer} {loc : Location} {t : Token} {ts us : List Token} {p : Problem}
  {problem problem' : Option Problem}

/-- The answer of the call that ends a run. -/
def ending : Option Problem → Except Problem (Option Token)
  | none => .ok none
  | some p => .error p

/-- The calls of the lexer deliver the tokens, and the one after them delivers none: the end of
    the text is reached, or there is a problem. -/
def Finishes (lx : Lexer) (ts : List Token) (problem : Option Problem) : Prop :=
  ∃ lx', lx.Delivers ts lx' ∧ lx'.next.1 = ending problem

/-- Whatever the stream is, every run finishes, because every token takes a character. -/
theorem exists_finishes (lx : Lexer) : ∃ ts problem, lx.Finishes ts problem := by
  rcases hnext : lx.next with ⟨p | _ | t, lx1⟩
  · exact ⟨[], some p, lx, .nil lx, congrArg Prod.fst hnext⟩
  · exact ⟨[], none, lx, .nil lx, congrArg Prod.fst hnext⟩
  · have hlt := size_next_lt hnext
    obtain ⟨ts, problem, lx', hdelivers, hending⟩ := exists_finishes lx1
    exact ⟨t :: ts, problem, lx', .cons hnext hdelivers, hending⟩
termination_by lx.size

end Lexer

/-! ## §2. Runs over a text -/

/-- A run finishes where the pieces of its text do. -/
theorem Cuts.finishes {lx : Lexer} {loc : Location} {o : Front} (h : Cuts keepNewline r ps rest)
    (ho : FrontOf keepNewline rest o) (hno : ∀ p rest', o ≠ .piece p rest')
    (hlx : lx.Before keepNewline loc r) :
    lx.Finishes (located loc ps) (o.problem (loc.after (sources ps))) := by
  obtain ⟨lx', hdelivers, hlx'⟩ := h.delivers hlx
  refine ⟨lx', hdelivers, ?_⟩
  rw [hlx'.answer_next ho]
  cases o with
  | ended => rfl
  | piece p rest' => exact absurd rfl (hno p rest')
  | invalid before c context => rfl
  | unterminated => rfl

/-- Every run over a text finishes. -/
theorem exists_finishes (text filename : String) (keepNewline : Bool) :
    ∃ ts problem, (Lexer.ofText text filename keepNewline).Finishes ts problem :=
  Lexer.exists_finishes (.ofText text filename keepNewline)

/-! ## §3. Iterating -/

/-- The tokens that an iteration delivers of those that it pulls. -/
def Token.passed (screened : Bool) (ts : List Token) : List Token :=
  ts.filter fun t => !(screened && t.isDiscardable)

@[simp] theorem Token.passed_false (ts : List Token) : Token.passed false ts = ts := by
  simp [passed]

@[simp] theorem Token.passed_true (ts : List Token) : Token.passed true ts = Token.screen ts := by
  simp [passed, screen]

theorem Token.passed_cons (screened : Bool) (t : Token) (ts : List Token) :
    Token.passed screened (t :: ts) =
      if screened && t.isDiscardable then Token.passed screened ts
      else t :: Token.passed screened ts := by
  unfold passed
  rw [List.filter_cons]
  cases screened && t.isDiscardable with
  | false => rfl
  | true => rfl

theorem Token.passed_append (screened : Bool) (ts us : List Token) :
    Token.passed screened (ts ++ us) = Token.passed screened ts ++ Token.passed screened us :=
  List.filter_append ts us

namespace Lexer

variable {lx lx' : Lexer} {t : Token} {ts us : List Token} {p : Problem}
  {problem problem' : Option Problem}

/-- One pull, by the answer of the next call. -/
theorem pull_eq (screened : Bool) (lx : Lexer) :
    lx.pull screened = match lx.next with
      | (.ok (some t), lx') =>
        if screened && t.isDiscardable then lx'.pull screened else (.ok (some t), lx')
      | (.ok none, lx') => (.ok none, lx'.close)
      | (.error p, lx') => (.error p, lx'.close) := by
  rw [pull]
  split <;> simp_all

/-- One round of an iteration, by the answer of the next pull. -/
theorem collectFrom_eq (screened : Bool) (delivered : List Token) (lx : Lexer) :
    lx.collectFrom screened delivered = match lx.pull screened with
      | (.ok (some t), lx') => lx'.collectFrom screened (t :: delivered)
      | (.ok none, lx') => ⟨delivered.reverse, none, lx'⟩
      | (.error p, lx') => ⟨delivered.reverse, some p, lx'⟩ := by
  rw [collectFrom]
  split <;> simp_all

theorem collectFrom_of_token (h : lx.next = (.ok (some t), lx')) (delivered : List Token) :
    lx.collectFrom screened delivered =
      if screened && t.isDiscardable then lx'.collectFrom screened delivered
      else lx'.collectFrom screened (t :: delivered) := by
  rw [collectFrom_eq, pull_eq, h]
  cases hskip : screened && t.isDiscardable with
  | true =>
    -- The pull goes on to the next token, as the first pull of the next lexer does.
    simp only [hskip, if_true]
    rw [← collectFrom_eq]
  | false => simp only [hskip, Bool.false_eq_true, if_false]

theorem Delivers.collectFrom (h : lx.Delivers ts lx') (delivered : List Token) :
    lx.collectFrom screened delivered =
      lx'.collectFrom screened ((Token.passed screened ts).reverse ++ delivered) := by
  induction h generalizing delivered with
  | nil lx => rfl
  | @cons lx lx1 lx' t ts hnext _ ih =>
    rw [collectFrom_of_token hnext, Token.passed_cons]
    cases screened && t.isDiscardable with
    | true => exact ih delivered
    | false =>
      show lx1.collectFrom screened (t :: delivered) = _
      rw [ih, List.append_cons, ← List.reverse_cons]
      rfl

theorem collectFrom_of_ending (h : lx.next.1 = ending problem) (delivered : List Token) :
    lx.collectFrom screened delivered = ⟨delivered.reverse, problem, lx.next.2.close⟩ := by
  have hnext : lx.next = (ending problem, lx.next.2) := Prod.ext h rfl
  rw [collectFrom_eq, pull_eq, hnext]
  cases problem with
  | none => rfl
  | some p => rfl

/-- What an iteration delivers of the tokens that come, and what it leaves behind. -/
theorem Delivers.collect (h : lx.Delivers ts lx') (hending : lx'.next.1 = ending problem)
    (screened : Bool) :
    lx.collect screened = ⟨Token.passed screened ts, problem, lx'.next.2.close⟩ := by
  rw [Lexer.collect, h.collectFrom, collectFrom_of_ending hending]
  simp

/-- An iteration delivers what it passes of a finished run, and ends like it. -/
theorem Finishes.collect (h : lx.Finishes ts problem) (screened : Bool) :
    (lx.collect screened).tokens = Token.passed screened ts ∧
      (lx.collect screened).problem = problem := by
  obtain ⟨lx', hdelivers, hending⟩ := h
  rw [hdelivers.collect hending screened]
  exact ⟨rfl, rfl⟩

/-- A run finishes in one way only. -/
theorem Finishes.unique (h : lx.Finishes ts problem) (h' : lx.Finishes us problem') :
    ts = us ∧ problem = problem' := by
  obtain ⟨htokens, hproblem⟩ := h.collect false
  obtain ⟨htokens', hproblem'⟩ := h'.collect false
  rw [htokens] at htokens'
  rw [hproblem] at hproblem'
  exact ⟨by simpa using htokens', hproblem'⟩

end Lexer

/-! ## §4. The whole text -/

variable {text filename : String} {ts : List Token} {problem : Option Problem}

theorem Lexer.Finishes.tokenize (h : (Lexer.ofText text filename keepNewline).Finishes ts problem)
    (screened : Bool) :
    tokenize text filename keepNewline screened =
      problem.elim (.ok (Token.passed screened ts)) .error := by
  obtain ⟨htokens, hproblem⟩ := h.collect screened
  rw [RpalLex.tokenize, Run.result, htokens, hproblem]
  cases problem with
  | none => rfl
  | some p => rfl

theorem tokenize_of_cuts (h : Cuts keepNewline text.toList ps []) :
    tokenize text filename keepNewline false = .ok (located (.start filename) ps) := by
  have hfinishes := h.finishes .ended (by simp) (Lexer.before_ofText text filename keepNewline)
  rw [hfinishes.tokenize false]
  simp [Front.problem]

theorem tokenize_of_invalid {before : List Char} {c : Char} {context : Option String}
    (h : Cuts keepNewline text.toList ps rest)
    (ho : FrontOf keepNewline rest (.invalid before c context)) :
    tokenize text filename keepNewline false = .error (.lexical
      (.invalidCharacter c (some (.behind filename (sources ps ++ before))) context)) := by
  have hfinishes := h.finishes ho (by simp) (Lexer.before_ofText text filename keepNewline)
  rw [hfinishes.tokenize false, ← Location.start_after, Location.after_append]
  rfl

theorem tokenize_of_unterminated (h : Cuts keepNewline text.toList ps rest)
    (ho : FrontOf keepNewline rest .unterminated) :
    tokenize text filename keepNewline false = .error (.lexical
      (.unterminatedString (some (.behind filename (sources ps))))) := by
  have hfinishes := h.finishes ho (by simp) (Lexer.before_ofText text filename keepNewline)
  rw [hfinishes.tokenize false, ← Location.start_after]
  rfl

/-- If a text has tokens, they are the pieces it is cut into. -/
theorem cuts_of_tokenize (h : tokenize text filename keepNewline false = .ok ts) :
    ∃ ps, Cuts keepNewline text.toList ps [] ∧ ts = located (.start filename) ps := by
  rcases cuts_cases keepNewline text.toList with
    ⟨ps, hps⟩ | ⟨ps, rest, before, c, context, hps, ho⟩ | ⟨ps, rest, hps, ho⟩
  · rw [tokenize_of_cuts hps] at h
    cases h
    exact ⟨ps, hps, rfl⟩
  · rw [tokenize_of_invalid hps ho] at h
    cases h
  · rw [tokenize_of_unterminated hps ho] at h
    cases h

end RpalLex
