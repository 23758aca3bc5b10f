import Mathlib.Data.List.Basic
import RpalLex.Proofs.Iteration

/-! # Texts one after another

  A lexer can be started afresh between two tokens.  If a text is at an end
  with its last token, because the token would not go on into the text that
  follows, then the tokens of both texts together are those of the first and
  then those of the second, and where the second text fails alone it fails
  behind the first.

  Only the locations change.  The first line of the second text begins where
  the first text ends, and all its other lines come as many lines later
  (§1).

  Main statements: `shift_start_after` (a location that is found by going
  forward through the second text alone is shifted to the one that is found
  behind the first) and `tokenize_append_of_endsBefore`. -/

namespace RpalLex

/-! ## §1. Shifted locations -/

/-- Where a location comes to stand if its text is put behind another one, which ends at
    `origin`. -/
def Location.shift (origin loc : Location) : Location :=
  if loc.line = 1 then ⟨loc.filename, origin.line, origin.column + loc.column - 1⟩
  else ⟨loc.filename, origin.line + loc.line - 1, loc.column⟩

def Token.shift (origin : Location) (t : Token) : Token := { t with start := origin.shift t.start }

def LexError.shift (origin : Location) : LexError → LexError
  | general m loc h => general m (loc.map origin.shift) h
  | unterminatedString loc => unterminatedString (loc.map origin.shift)
  | invalidCharacter c loc context => invalidCharacter c (loc.map origin.shift) context
  | unreadable m loc h cause => unreadable m (loc.map origin.shift) h cause

def Problem.shift (origin : Location) : Problem → Problem
  | lexical e => lexical (e.shift origin)
  | p => p

theorem Location.shift_advance {origin loc : Location} (hline : 1 ≤ loc.line) (c : Char) :
    origin.shift (loc.advance c) = (origin.shift loc).advance c := by
  by_cases hc : c = '\n'
  · -- Behind a line feed the line is not the first one any more.
    have hnext : (loc.advance c).line ≠ 1 := by
      simp only [advance, hc, if_true]
      omega
    rw [shift, if_neg hnext]
    by_cases hfirst : loc.line = 1
    · simp only [shift, advance, hc, hfirst, if_true, Location.mk.injEq, true_and, and_true]
      omega
    · simp only [shift, advance, hc, hfirst, if_true, if_false, Location.mk.injEq, true_and,
        and_true]
      omega
  · by_cases hfirst : loc.line = 1
    · simp only [shift, advance, hc, hfirst, if_true, if_false, Location.mk.injEq, true_and]
      omega
    · simp [shift, advance, hc, hfirst]

theorem Location.shift_after {origin loc : Location} (hline : 1 ≤ loc.line) (cs : List Char) :
    origin.shift (loc.after cs) = (origin.shift loc).after cs := by
  induction cs generalizing loc with
  | nil => rfl
  | cons c cs ih =>
    have hnext : 1 ≤ (loc.advance c).line :=
      Int.le_trans hline (line_column_after loc [c]).1
    rw [after_cons, ih hnext, shift_advance hline, after_cons]

theorem Location.shift_start (origin : Location) :
    origin.shift (start origin.filename) = origin := by
  simp [shift, start]

/-- Going forward from the beginning of a file and shifting is going forward from the origin. -/
theorem Location.shift_start_after (origin : Location) (cs : List Char) :
    origin.shift ((start origin.filename).after cs) = origin.after cs := by
  rw [shift_after (by simp [start]), shift_start]

theorem map_shift_located (origin : Location) {loc : Location} (hline : 1 ≤ loc.line)
    (ps : List Piece) :
    (located loc ps).map (Token.shift origin) = located (origin.shift loc) ps := by
  induction ps generalizing loc with
  | nil => rfl
  | cons p ps ih =>
    have hnext : 1 ≤ (loc.after p.source).line :=
      Int.le_trans hline (Location.line_column_after loc p.source).1
    rw [located, List.map_cons, ih hnext, Location.shift_after hline]
    rfl

theorem map_shift_problem (origin : Location) {loc : Location} (hline : 1 ≤ loc.line)
    (o : Front) : (o.problem loc).map (Problem.shift origin) = o.problem (origin.shift loc) := by
  cases o with
  | ended => rfl
  | piece p rest => rfl
  | invalid before c context =>
    simp [Front.problem, Problem.shift, LexError.shift, Location.shift_after hline]
  | unterminated => rfl

/-! ## §2. A text that is at an end -/

/-- The last token of the text `a` does not go on into the text `b`: it is a comment whose line
    feed `a` already has and drops, or the first character of `b` does not continue it. -/
def Token.EndsBefore (keepNewline : Bool) (a b : List Char) (t : Token) : Prop :=
  if t.kind = .comment ∧ keepNewline = false then a.getLast? = some '\n'
  else Stops t.kind.continuedBy b

variable {keepNewline : Bool} {r a b mid : List Char} {p : Piece} {ps : List Piece}
  {loc : Location}

theorem lineFeed_not_mem_comment {v : List Char} (hv : Token.Kind.comment.Language v) :
    '\n' ∉ v := by
  obtain ⟨body, rfl, hbody⟩ := hv
  intro hmem
  rcases List.mem_cons.1 hmem with h | hmem
  · exact absurd h (by decide)
  · rcases List.mem_cons.1 hmem with h | hmem
    · exact absurd h (by decide)
    · exact absurd (hbody '\n' hmem) (by decide)

/-- A last piece that does not go on stays what it is. -/
theorem FrontOf.of_endsBefore (h : FrontOf keepNewline mid (.piece p []))
    (hends : (p.token loc).EndsBefore keepNewline (a ++ mid) b) :
    FrontOf keepNewline (mid ++ b) (.piece p b) := by
  cases h with
  | @piece k v _ hv _ _ =>
    rw [List.append_nil] at hends ⊢
    by_cases hdrops : k = .comment ∧ keepNewline = false
    · -- The comment has no line feed in it, so the text does not end with one.
      have hlast : (a ++ k.written v).getLast? = some '\n' := by
        simpa [Token.EndsBefore, Piece.token, hdrops] using hends
      obtain ⟨rfl, -⟩ := hdrops
      have hne : v ≠ [] := hv.written_ne_nil
      rw [Token.Kind.written_of_ne_string (by simp), List.getLast?_append_of_ne_nil _ hne] at hlast
      exact absurd (List.mem_of_getLast? hlast) (lineFeed_not_mem_comment hv)
    · have hstops : Stops k.continuedBy b := by
        simpa only [Token.EndsBefore, Piece.token, hdrops, if_false] using hends
      have hkept : k = .comment → keepNewline = true := by
        intro hk
        by_contra hdrop
        exact hdrops ⟨hk, by simpa using hdrop⟩
      exact .piece hv hstops fun hk => .inl (hkept hk)
  | @commentLine v _ hdrop hv =>
    rw [List.append_assoc]
    exact .commentLine hdrop hv

/-- A text that is at an end is cut as before if more text follows. -/
theorem Cuts.of_endsBefore (h : Cuts keepNewline a ps [])
    (hends : ∀ t ∈ (located loc ps).getLast?, t.EndsBefore keepNewline a b) :
    Cuts keepNewline (a ++ b) ps b := by
  rcases List.eq_nil_or_concat ps with rfl | ⟨init, p, rfl⟩
  · obtain rfl : a = [] := h.eq_sources_append
    exact .nil b
  · rw [List.concat_eq_append] at h hends ⊢
    obtain ⟨mid, hinit, hp⟩ := h.of_concat
    have hlast := hends (p.token (loc.after (sources init))) (by simp [located_concat])
    rw [hinit.eq_sources_append] at hlast
    have hmore := hinit.extend (hp.ne_nil (by simp)) b
    exact hmore.append (.cons (hp.of_endsBefore hlast) (.nil b))

/-! ## §3. Both texts -/

/-- If a text has tokens and is at an end with them, the run over it and a second text delivers
    these tokens and then finishes like the run over the second text, with all locations
    shifted. -/
theorem tokenize_append_of_endsBefore (a b filename : String) (keepNewline : Bool) (ts : List Token)
    (ha : tokenize a filename keepNewline false = .ok ts)
    (hends : ∀ t ∈ ts.getLast?, t.EndsBefore keepNewline a.toList b.toList) :
    (∃ us problem, (Lexer.ofText b filename keepNewline).Finishes us problem ∧
      (Lexer.ofText (a ++ b) filename keepNewline).Finishes
        (ts ++ us.map (Token.shift (.behind filename a.toList)))
        (problem.map (Problem.shift (.behind filename a.toList)))) ∧
    tokenize (a ++ b) filename keepNewline false =
      match tokenize b filename keepNewline false with
      | .ok us => .ok (ts ++ us.map (Token.shift (.behind filename a.toList)))
      | .error e => .error (e.shift (.behind filename a.toList)) := by
  obtain ⟨ps, hps, rfl⟩ := cuts_of_tokenize ha
  have hfirst := hps.of_endsBefore hends
  obtain ⟨qs, rest, o, hqs, ho, hno⟩ := exists_cuts keepNewline b.toList
  have hb := hqs.finishes ho hno (Lexer.before_ofText b filename keepNewline)
  have hboth : Cuts keepNewline (a ++ b).toList (ps ++ qs) rest := by
    rw [String.toList_append]
    exact hfirst.append hqs
  have hab := hboth.finishes ho hno (Lexer.before_ofText (a ++ b) filename keepNewline)
  -- The second text begins where the first one ends.
  have horigin : (Location.start filename).after (sources ps) = .behind filename a.toList := by
    rw [Location.start_after, hps.eq_sources_append, List.append_nil]
  have hline : (1 : Int) ≤ (Location.start filename).line := Int.le_refl 1
  have hstart : (Location.behind filename a.toList).shift (.start filename) =
      .behind filename a.toList := Location.shift_start_after (.behind filename a.toList) []
  have htokens : (located (.start filename) qs).map (Token.shift (.behind filename a.toList)) =
      located (.behind filename a.toList) qs := by
    rw [map_shift_located _ hline, hstart]
  have hproblem : (o.problem ((Location.start filename).after (sources qs))).map
      (Problem.shift (.behind filename a.toList)) =
      o.problem ((Location.behind filename a.toList).after (sources qs)) := by
    have hqline := Int.le_trans hline (Location.line_column_after (.start filename) (sources qs)).1
    rw [map_shift_problem _ hqline, Location.shift_after hline, hstart]
  rw [located_append, sources_append, Location.after_append, horigin, ← htokens, ← hproblem] at hab
  refine ⟨⟨_, _, hb, hab⟩, ?_⟩
  rw [hab.tokenize false, hb.tokenize false]
  cases o.problem ((Location.start filename).after (sources qs)) with
  | none => simp
  | some e => simp

/-- The first text has the line feed that ends its comment.  The literal that the second text
    leaves open stands on the second line there, and on the third line of both texts. -/
theorem tokenize_append_of_endsBefore_literal :
    (∀ t ∈ [(⟨.comment, "//", ⟨"f", 1, 1⟩⟩ : Token)].getLast?,
      t.EndsBefore false "//\n".toList "a\n 'b".toList) ∧
    (∃ us problem, (Lexer.ofText "a\n 'b" "f" false).Finishes us problem ∧
      (Lexer.ofText ("//\n" ++ "a\n 'b") "f" false).Finishes
        (⟨.comment, "//", ⟨"f", 1, 1⟩⟩ :: us.map (Token.shift ⟨"f", 2, 1⟩))
        (problem.map (Problem.shift ⟨"f", 2, 1⟩))) ∧
    tokenize ("//\n" ++ "a\n 'b") "f" false false =
      .error (.lexical (.unterminatedString (some ⟨"f", 3, 2⟩))) := by
  have hfirst : tokenize "//\n" "f" false false = .ok [⟨.comment, "//", ⟨"f", 1, 1⟩⟩] := by
    decide +kernel
  have hsecond : tokenize "a\n 'b" "f" false false =
      .error (.lexical (.unterminatedString (some ⟨"f", 2, 2⟩))) := by decide +kernel
  have hends : ∀ t ∈ [(⟨.comment, "//", ⟨"f", 1, 1⟩⟩ : Token)].getLast?,
      t.EndsBefore false "//\n".toList "a\n 'b".toList := by
    intro t ht
    obtain rfl : ⟨.comment, "//", ⟨"f", 1, 1⟩⟩ = t := by simpa using ht
    rw [Token.EndsBefore, if_pos ⟨rfl, rfl⟩]
    decide
  obtain ⟨hfinishes, hboth⟩ :=
    tokenize_append_of_endsBefore "//\n" "a\n 'b" "f" false _ hfirst hends
  have horigin : Location.behind "f" "//\n".toList = ⟨"f", 2, 1⟩ := by decide
  rw [horigin] at hfinishes hboth
  rw [hsecond] at hboth
  exact ⟨hends, hfinishes, hboth⟩

end RpalLex
