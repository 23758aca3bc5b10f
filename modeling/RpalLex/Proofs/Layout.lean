import RpalLex.Proofs.Backslashes
import RpalLex.Proofs.Segmentation

/-! # Layout does not matter

  A program may be written with any layout: between two tokens stands a
  *separator*, a blank and after it blanks and comments in any order.  What
  a parser sees of the program are the tokens that were written.

  A blank continues no token that a parser looks at, and no such token begins
  with a blank (§2).  So every token ends right in front of its separator, and
  every separator is cut into discardable pieces (§3).  Which pieces these are
  depends on whether the line feeds behind comments are kept; that they are
  discardable does not.

  Main statement: `tokenize_layout`. -/

namespace RpalLex

open Alphabet

/-! ## §1. Programs with layout -/

/-- What a parser may look at: a value of the kind.  The quotes in the value of a string are
    escaped, and no escape is pending at its end. -/
def Lexical.WellFormed (x : Lexical) : Prop :=
  x.1.isDiscardable = false ∧
    match x.1 with
    | .string => QuotesEscaped x.2.toList ∧ Even (backslashesAtEnd x.2.toList)
    | k => k.Language x.2.toList

/-- Blanks and complete comments, in any order. -/
inductive Filler : List Char → Prop where
  | nil : Filler []
  | blank {c : Char} {s : List Char} : isBlank c = true → Filler s → Filler (c :: s)
  | comment {v s : List Char} : Token.Kind.comment.Language v → Filler s →
      Filler (v ++ '\n' :: s)

/-- What stands between two tokens. -/
def Separator (s : List Char) : Prop :=
  ∃ c filler, s = c :: filler ∧ isBlank c = true ∧ Filler filler

/-- A program: a token and then other tokens, each behind a separator. -/
def layout : Lexical → List (List Char × Lexical) → List Char
  | x, [] => x.written
  | x, (s, y) :: others => x.written ++ (s ++ layout y others)

theorem Lexical.WellFormed.language {x : Lexical} (h : x.WellFormed) :
    x.1.Language x.2.toList := by
  obtain ⟨k, v⟩ := x
  obtain ⟨-, h⟩ := h
  cases k with
  | string =>
    have hodd : ¬ Odd (backslashesAtEnd v.toList) := Nat.not_odd_iff_even.2 h.2
    exact openBody_false_iff.1 (openBody_iff.2 ⟨h.1, by simp [hodd]⟩)
  | _ => exact h

theorem Lexical.WellFormed.kind_ne {x : Lexical} (h : x.WellFormed) {k : Token.Kind}
    (hk : k.isDiscardable = true) : x.1 ≠ k := by
  rintro rfl
  rw [h.1] at hk
  cases hk

/-! ## §2. Blanks beside tokens -/

/-- No character that starts anything else than white space is blank. -/
theorem isBlank_of_contains {k : StartClass} {c : Char} (hk : k ≠ .space)
    (hc : k.contains c = true) : isBlank c = false := by
  by_contra hblank
  have hspace : isBlank c = true := by simpa using hblank
  exact hk (StartClass.contains_unique hc hspace)

variable {k : Token.Kind} {v r : List Char}

theorem continuedBy_of_isBlank {c : Char} (hk : k.isDiscardable = false) (hc : isBlank c = true) :
    k.continuedBy c = false := by
  have table : (blanks.all fun c => Token.Kind.all.all fun k =>
      k.isDiscardable || !k.continuedBy c) = true := by decide
  have hmem : k ∈ Token.Kind.all := by cases k <;> decide
  have hrow := List.all_eq_true.1 table c (List.contains_iff_mem.1 hc)
  have hcell := List.all_eq_true.1 hrow k hmem
  simpa [hk] using hcell

theorem Token.Kind.Language.stops_isBlank (hv : k.Language v) (hk : k ≠ .whitespace)
    (r : List Char) : Stops isBlank (k.written v ++ r) := by
  -- The start class of the first character.
  obtain ⟨c, u, s, hwritten, hs, hc⟩ : ∃ c u, ∃ s : StartClass,
      k.written v = c :: u ∧ s ≠ .space ∧ s.contains c = true := by
    have hmark : ∀ c, Token.Kind.ofMark? c = some k → StartClass.punctuation.contains c = true := by
      intro c hc
      rw [StartClass.contains, ← Token.Kind.isSome_ofMark?, hc]
      rfl
    cases k with
    | identifier =>
      obtain ⟨⟨c, u, rfl, hc, -⟩, -⟩ := hv
      exact ⟨c, u, .letter, rfl, by simp, hc⟩
    | reserved =>
      obtain ⟨c, u, rfl, hc, -⟩ := isWord_of_isReserved hv
      exact ⟨c, u, .letter, rfl, by simp, hc⟩
    | integer =>
      obtain ⟨c, u, rfl⟩ := List.exists_cons_of_ne_nil hv.1
      exact ⟨c, u, .digit, rfl, by simp, hv.2 c (by simp)⟩
    | operator =>
      obtain ⟨c, u, rfl⟩ := List.exists_cons_of_ne_nil hv.1.1
      exact ⟨c, u, .operator, rfl, by simp, hv.1.2 c (by simp)⟩
    | string => exact ⟨quote, v ++ [quote], .quote, rfl, by simp, rfl⟩
    | whitespace => exact absurd rfl hk
    | comment =>
      obtain ⟨u, rfl, -⟩ := hv
      exact ⟨'/', '/' :: u, .operator, rfl, by simp, by decide⟩
    | leftParen | rightParen | semicolon | comma =>
      obtain ⟨c, rfl, hc⟩ := hv
      exact ⟨c, [], .punctuation, rfl, by simp, hmark c hc⟩
  intro d hd
  rw [hwritten] at hd
  obtain rfl : c = d := by simpa using hd
  exact isBlank_of_contains hs hc

/-! ## §3. Cutting a program with layout -/

variable {keepNewline : Bool} {s w : List Char}

/-- The pieces that a parser looks at, as kinds and values. -/
def spoken (ps : List Piece) : List Lexical :=
  (ps.filter fun p => !p.kind.isDiscardable).map Piece.lexical

theorem spoken_append (ps qs : List Piece) : spoken (ps ++ qs) = spoken ps ++ spoken qs := by
  simp [spoken]

theorem map_ofToken_screen_located (loc : Location) (ps : List Piece) :
    (Token.screen (located loc ps)).map Lexical.ofToken = spoken ps := by
  induction ps generalizing loc with
  | nil => rfl
  | cons p ps ih =>
    have hrest := ih (loc.after p.source)
    unfold Token.screen at hrest ⊢
    unfold spoken at hrest ⊢
    have hsame : (p.token loc).isDiscardable = p.kind.isDiscardable := rfl
    rw [located, List.filter_cons, List.filter_cons, hsame]
    cases p.kind.isDiscardable with
    | true => exact hrest
    | false => simpa [Lexical.ofToken, Piece.token, Piece.lexical] using hrest

/-- A row of blanks is white space, unless it is empty. -/
theorem cuts_blanks (keepNewline : Bool) (hw : ∀ c ∈ w, isBlank c = true)
    (hr : Stops isBlank r) : ∃ ps, Cuts keepNewline (w ++ r) ps r ∧ spoken ps = [] := by
  by_cases hnil : w = []
  · subst hnil
    exact ⟨[], .nil r, rfl⟩
  · have hp : FrontOf keepNewline (w ++ r) (.piece ⟨.whitespace, w, []⟩ r) :=
      .piece (k := .whitespace) ⟨hnil, hw⟩ hr (by simp)
    exact ⟨_, .cons hp (.nil r), rfl⟩

/-- The blanks `w` in front of the filler belong to the same row as those that the filler begins
    with; so does a line feed that is kept. -/
theorem Filler.exists_cuts (h : Filler s) (keepNewline : Bool) (hw : ∀ c ∈ w, isBlank c = true)
    (hr : Stops isBlank r) : ∃ ps, Cuts keepNewline (w ++ (s ++ r)) ps r ∧ spoken ps = [] := by
  induction h generalizing w with
  | nil => exact cuts_blanks keepNewline hw hr
  | @blank c s hc _ ih =>
    have hwc : ∀ d ∈ w ++ [c], isBlank d = true :=
      List.forall_mem_append.2 ⟨hw, List.forall_mem_singleton.2 hc⟩
    have hcuts := ih hwc
    rwa [List.append_assoc] at hcuts
  | @comment v s hv _ ih =>
    rw [List.append_assoc, List.cons_append]
    obtain ⟨ps, hps, hblanks⟩ :=
      cuts_blanks keepNewline hw (hv.stops_isBlank (by simp) ('\n' :: (s ++ r)))
    -- The comment with its line feed, or the comment and the line feed in front of what follows.
    obtain ⟨qs, hqs, hcomment⟩ :
        ∃ qs, Cuts keepNewline (v ++ '\n' :: (s ++ r)) qs r ∧ spoken qs = [] := by
      cases keepNewline with
      | true =>
        have hp : FrontOf true (v ++ '\n' :: (s ++ r))
            (.piece ⟨.comment, v, []⟩ ('\n' :: (s ++ r))) :=
          .piece (k := .comment) hv (by simp [Stops, Token.Kind.continuedBy]) fun _ => .inl rfl
        have hfeed : ∀ d ∈ ['\n'], isBlank d = true := List.forall_mem_singleton.2 rfl
        obtain ⟨qs, hqs, hrest⟩ := ih hfeed
        exact ⟨_, .cons hp hqs, hrest⟩
      | false =>
        have hp : FrontOf false (v ++ '\n' :: (s ++ r))
            (.piece ⟨.comment, v, ['\n']⟩ (s ++ r)) := .commentLine rfl hv
        obtain ⟨qs, hqs, hrest⟩ := ih (w := []) (by simp)
        exact ⟨_, .cons hp hqs, hrest⟩
    refine ⟨ps ++ qs, hps.append hqs, ?_⟩
    rw [spoken_append, hblanks, hcomment]
    rfl

theorem Separator.exists_cuts (h : Separator s) (keepNewline : Bool) (hr : Stops isBlank r) :
    ∃ ps, Cuts keepNewline (s ++ r) ps r ∧ spoken ps = [] := by
  obtain ⟨c, filler, rfl, hc, hfiller⟩ := h
  exact hfiller.exists_cuts keepNewline (w := [c]) (List.forall_mem_singleton.2 hc) hr

theorem Lexical.WellFormed.frontOf {x : Lexical} (h : x.WellFormed) (keepNewline : Bool)
    (hr : Stops x.1.continuedBy r) :
    FrontOf keepNewline (x.written ++ r) (.piece ⟨x.1, x.2.toList, []⟩ r) := by
  refine .piece h.language hr ?_
  intro hcomment
  exact absurd hcomment (h.kind_ne rfl)

theorem Lexical.WellFormed.spoken_cons {x : Lexical} (h : x.WellFormed) (ps : List Piece) :
    spoken (⟨x.1, x.2.toList, []⟩ :: ps) = x :: spoken ps := by
  simp [spoken, h.1, Piece.lexical]

/-- No program with layout begins with a blank. -/
theorem stops_isBlank_layout {x : Lexical} (h : x.WellFormed)
    (others : List (List Char × Lexical)) : Stops isBlank (layout x others) := by
  have hne : x.1 ≠ .whitespace := h.kind_ne rfl
  cases others with
  | nil =>
    have hstops := h.language.stops_isBlank hne []
    rwa [List.append_nil] at hstops
  | cons y others => exact h.language.stops_isBlank hne (y.1 ++ layout y.2 others)

theorem exists_cuts_layout {x : Lexical} {others : List (List Char × Lexical)}
    (hx : x.WellFormed) (hothers : ∀ y ∈ others, Separator y.1 ∧ y.2.WellFormed)
    (keepNewline : Bool) :
    ∃ ps, Cuts keepNewline (layout x others) ps [] ∧ spoken ps = x :: others.map Prod.snd := by
  induction others generalizing x with
  | nil =>
    have hp := hx.frontOf keepNewline (r := []) (by simp [Stops])
    rw [List.append_nil] at hp
    exact ⟨_, .cons hp (.nil []), hx.spoken_cons []⟩
  | cons y others ih =>
    obtain ⟨s, y⟩ := y
    obtain ⟨⟨hs, hy⟩, hrest⟩ := List.forall_mem_cons.1 hothers
    obtain ⟨ps, hps, hspoken⟩ := ih hy hrest
    obtain ⟨qs, hqs, hskipped⟩ := hs.exists_cuts keepNewline (stops_isBlank_layout hy others)
    -- The separator begins with a blank, which ends the token in front of it.
    have hstops : Stops x.1.continuedBy (s ++ layout y others) := by
      obtain ⟨c, filler, rfl, hc, -⟩ := hs
      intro d hd
      obtain rfl : c = d := by simpa using hd
      exact continuedBy_of_isBlank hx.1 hc
    refine ⟨_, .cons (hx.frontOf keepNewline hstops) (hqs.append hps), ?_⟩
    rw [hx.spoken_cons, spoken_append, hskipped, hspoken]
    rfl

/-- Tokens written with any layout are read as they were written, whether or not line feeds behind
    comments are kept. -/
theorem tokenize_layout (x : Lexical) (others : List (List Char × Lexical)) (filename : String)
    (keepNewline : Bool) (hx : x.WellFormed)
    (hothers : ∀ y ∈ others, Separator y.1 ∧ y.2.WellFormed) :
    ∃ ts, tokenize (String.ofList (layout x others)) filename keepNewline true = .ok ts ∧
      ts.map Lexical.ofToken = x :: others.map Prod.snd := by
  obtain ⟨ps, hps, hspoken⟩ := exists_cuts_layout hx hothers keepNewline
  have hcuts : Cuts keepNewline (String.ofList (layout x others)).toList ps [] := by
    rwa [String.toList_ofList]
  have hfinishes := hcuts.finishes .ended (by simp)
    (Lexer.before_ofText (String.ofList (layout x others)) filename keepNewline)
  refine ⟨Token.screen (located (.start filename) ps), ?_, ?_⟩
  · rw [hfinishes.tokenize true, Token.passed_true]
    rfl
  · rw [map_ofToken_screen_located, hspoken]

/-- A slash in front of a comment with a quote in it, and a string whose value ends with a quote. -/
theorem tokenize_layout_slash :
    let x : Lexical := (.operator, "/")
    let others : List (List Char × Lexical) :=
      [(" //'\n\t".toList, (.string, "\\'")), ("\n".toList, (.reserved, "in"))]
    x.WellFormed ∧ (∀ y ∈ others, Separator y.1 ∧ y.2.WellFormed) ∧
      String.ofList (layout x others) = "/ //'\n\t'\\''\nin" ∧
      ∃ ts, tokenize "/ //'\n\t'\\''\nin" "f" false true = .ok ts ∧
        ts.map Lexical.ofToken = [(.operator, "/"), (.string, "\\'"), (.reserved, "in")] := by
  intro x others
  have hrow : ∀ c ∈ "/".toList, isOperatorSymbol c = true := List.forall_mem_singleton.2 rfl
  have hx : x.WellFormed := ⟨rfl, ⟨by decide, hrow⟩, by decide⟩
  have hothers : ∀ y ∈ others, Separator y.1 ∧ y.2.WellFormed := by
    have hopen : OpenBody "\\'".toList false := rfl
    obtain ⟨hquotes, hparity⟩ := openBody_iff.1 hopen
    have heven : Even (backslashesAtEnd "\\'".toList) :=
      Nat.not_odd_iff_even.1 (by simpa using hparity)
    have hcomment : Token.Kind.comment.Language "//'".toList :=
      ⟨['\''], rfl, List.forall_mem_singleton.2 rfl⟩
    have hfirst : Separator " //'\n\t".toList :=
      ⟨' ', "//'\n\t".toList, rfl, by decide, .comment hcomment (.blank (by decide) .nil)⟩
    have hsecond : Separator "\n".toList := ⟨'\n', [], rfl, by decide, .nil⟩
    have hreserved : Token.Kind.reserved.Language "in".toList := by
      show Token.isReserved (String.ofList "in".toList) = true
      decide
    simp only [others, List.forall_mem_cons]
    exact ⟨⟨hfirst, rfl, hquotes, heven⟩, ⟨hsecond, rfl, hreserved⟩, by simp⟩
  have hlayout : String.ofList (layout x others) = "/ //'\n\t'\\''\nin" := by decide
  obtain ⟨ts, htokens, hts⟩ := tokenize_layout x others "f" false hx hothers
  rw [hlayout] at htokens
  exact ⟨hx, hothers, hlayout, ts, htokens, hts⟩

end RpalLex
