import RpalLex.Proofs.Iteration

/-! # Line feeds behind comments

  The line feed that ends a comment is either kept, and comes out in front of
  white space, or dropped.  Two runs over one text, one in each mode, stand
  at the same character whenever neither is right behind a comment.  Behind a
  comment the run that keeps the line feed reads a row of blanks that begins
  with it; the other run reads what is left of this row, if anything is.
  After that they stand at the same character again.

  So the runs end in the same way, and their tokens differ behind comments
  only (`DropsLineFeeds`).

  Main statement: `exists_finishes_dropsLineFeeds`. -/

namespace RpalLex

open Alphabet

/-! ## §1. Two lists of tokens -/

/-- What is left of white space when the line feed in front of it is dropped: its other characters
    `w`, which stand at the beginning of the next line, if there are any. -/
def Token.behindLineFeed (t : Token) (w : String) : List Token :=
  if w = "" then [] else [⟨.whitespace, w, ⟨t.start.filename, t.start.line + 1, 1⟩⟩]

/-- The first tokens, with the line feeds behind comments dropped, are the second ones.  Every
    token that directly follows a comment is white space that begins with a line feed; all other
    tokens stay as they are. -/
inductive DropsLineFeeds : List Token → List Token → Prop where
  | nil : DropsLineFeeds [] []
  | token {t : Token} {ts us : List Token} (ht : t.kind ≠ .comment) :
      DropsLineFeeds ts us → DropsLineFeeds (t :: ts) (t :: us)
  | lastComment {t : Token} (ht : t.kind = .comment) : DropsLineFeeds [t] [t]
  | comment {t blank : Token} {w : String} {ts us : List Token} (ht : t.kind = .comment)
      (hkind : blank.kind = .whitespace) (hvalue : blank.value = "\n" ++ w) :
      DropsLineFeeds ts us →
      DropsLineFeeds (t :: blank :: ts) (t :: (blank.behindLineFeed w ++ us))

theorem screen_behindLineFeed (t : Token) (w : String) :
    Token.screen (t.behindLineFeed w) = [] := by
  unfold Token.behindLineFeed
  split
  · rfl
  · rfl

/-- The tokens that differ are discardable. -/
theorem DropsLineFeeds.screen_eq {ts us : List Token} (h : DropsLineFeeds ts us) :
    Token.screen ts = Token.screen us := by
  induction h with
  | nil => rfl
  | token ht _ ih =>
    unfold Token.screen at ih ⊢
    rw [List.filter_cons, List.filter_cons, ih]
  | lastComment ht => rfl
  | @comment t blank w ts us ht hkind hvalue _ ih =>
    have hcomment : t.isDiscardable = true := by rw [Token.isDiscardable, ht]; rfl
    have hblank : blank.isDiscardable = true := by rw [Token.isDiscardable, hkind]; rfl
    have hleft := screen_behindLineFeed blank w
    unfold Token.screen at ih hleft ⊢
    rw [List.filter_cons_of_neg (by simp [hcomment]), List.filter_cons_of_neg (by simp [hblank]),
      List.filter_cons_of_neg (by simp [hcomment]), List.filter_append, hleft, List.nil_append, ih]

/-! ## §2. The front of a text in both modes -/

variable {keepNewline : Bool} {r rest : List Char} {p : Piece} {o : Front}

/-- Only pieces depend on the mode. -/
theorem FrontOf.of_not_piece (h : FrontOf keepNewline r o) (hno : ∀ p rest, o ≠ .piece p rest)
    (keepNewline' : Bool) : FrontOf keepNewline' r o := by
  cases h with
  | ended => exact .ended
  | piece => exact absurd rfl (hno _ _)
  | commentLine => exact absurd rfl (hno _ _)
  | stray hc => exact .stray hc
  | strayInComment hv hne hc => exact .strayInComment hv hne hc
  | strayInString hb hne hc => exact .strayInString hb hne hc
  | unterminated hb => exact .unterminated hb

/-- Only comments depend on the mode. -/
theorem FrontOf.of_kind_ne_comment (h : FrontOf keepNewline r (.piece p rest))
    (hk : p.kind ≠ .comment) (keepNewline' : Bool) : FrontOf keepNewline' r (.piece p rest) := by
  cases h with
  | piece hv hstops => exact .piece hv hstops fun hcomment => absurd hcomment hk
  | commentLine => exact absurd rfl hk

/-- A comment that keeps its line feed is followed by it, or by nothing. -/
theorem FrontOf.of_kind_eq_comment (h : FrontOf true r (.piece p rest)) (hk : p.kind = .comment) :
    ∃ v, p = ⟨.comment, v, []⟩ ∧ Token.Kind.comment.Language v ∧ r = v ++ rest ∧
      (rest = [] ∨ ∃ r', rest = '\n' :: r') := by
  cases h with
  | @piece k v _ hv hstops _ =>
    obtain rfl : k = .comment := hk
    refine ⟨v, rfl, hv, rfl, ?_⟩
    cases rest with
    | nil => exact .inl rfl
    | cons c r' =>
      obtain rfl : c = '\n' := by simpa [Token.Kind.continuedBy] using hstops c rfl
      exact .inr ⟨r', rfl⟩
  | commentLine hdrop => cases hdrop

/-! ## §3. Two runs over one text

  What both runs do with a piece, with a comment that ends the text, and with
  a comment and the row of blanks behind it. -/

/-- From a location on, both runs cut a text as far as the same rest, and their tokens differ by
    line feeds only. -/
def CutsBoth (loc : Location) (r rest : List Char) : Prop :=
  ∃ ps qs, Cuts true r ps rest ∧ Cuts false r qs rest ∧
    DropsLineFeeds (located loc ps) (located loc qs)

variable {loc : Location} {v w rest' : List Char}

theorem CutsBoth.nil (loc : Location) (r : List Char) : CutsBoth loc r r :=
  ⟨[], [], .nil r, .nil r, .nil⟩

theorem CutsBoth.piece (hp : FrontOf true r (.piece p rest)) (hk : p.kind ≠ .comment)
    (h : CutsBoth (loc.after p.source) rest rest') : CutsBoth loc r rest' := by
  obtain ⟨ps, qs, hps, hqs, hdrops⟩ := h
  have hp' := hp.of_kind_ne_comment hk false
  exact ⟨p :: ps, p :: qs, .cons hp hps, .cons hp' hqs, .token hk hdrops⟩

/-- A comment that ends with the text has no line feed to keep or to drop. -/
theorem CutsBoth.lastComment (loc : Location) (hv : Token.Kind.comment.Language v) :
    CutsBoth loc (v ++ []) [] := by
  have hlast : ∀ keepNewline, FrontOf keepNewline (v ++ []) (.piece ⟨.comment, v, []⟩ []) := by
    intro keepNewline
    exact .piece (k := .comment) hv (by simp [Stops]) fun _ => .inr rfl
  exact ⟨_, _, .cons (hlast true) (.nil []), .cons (hlast false) (.nil []), .lastComment rfl⟩

/-- Blanks behind a line feed, for the run that dropped the line feed: they are one piece, unless
    there are none. -/
theorem Cuts.behindLineFeed {qs : List Piece} (hqs : Cuts false rest qs rest')
    (hw : ∀ c ∈ w, isBlank c = true) (hrest : Stops isBlank rest) (loc : Location) :
    ∃ bs, Cuts false (w ++ rest) (bs ++ qs) rest' ∧
      located (loc.advance '\n') (bs ++ qs) =
        ((⟨.whitespace, '\n' :: w, []⟩ : Piece).token loc).behindLineFeed (String.ofList w) ++
          located (loc.after ('\n' :: w)) qs := by
  have hline : loc.advance '\n' = ⟨loc.filename, loc.line + 1, 1⟩ := by simp [Location.advance]
  by_cases hnil : w = []
  · subst hnil
    exact ⟨[], hqs, rfl⟩
  · have hblank : FrontOf false (w ++ rest) (.piece ⟨.whitespace, w, []⟩ rest) :=
      .piece (k := .whitespace) ⟨hnil, hw⟩ hrest (by simp)
    have hne : String.ofList w ≠ "" := by
      intro hempty
      exact hnil (by simpa using congrArg String.toList hempty)
    refine ⟨[⟨.whitespace, w, []⟩], .cons hblank hqs, ?_⟩
    rw [Token.behindLineFeed, if_neg hne, List.singleton_append, located, Piece.source_mk,
      List.append_nil, Location.after_cons, hline]
    rfl

theorem CutsBoth.commentLine (hv : Token.Kind.comment.Language v) (hw : ∀ c ∈ w, isBlank c = true)
    (hrest : Stops isBlank rest) (h : CutsBoth ((loc.after v).after ('\n' :: w)) rest rest') :
    CutsBoth loc (v ++ '\n' :: (w ++ rest)) rest' := by
  obtain ⟨ps, qs, hps, hqs, hdrops⟩ := h
  -- One run keeps the line feed, which then begins a row of blanks.
  have hkept : FrontOf true (v ++ '\n' :: (w ++ rest))
      (.piece ⟨.comment, v, []⟩ ('\n' :: (w ++ rest))) :=
    .piece (k := .comment) hv (by simp [Stops, Token.Kind.continuedBy]) fun _ => .inl rfl
  have hblank : FrontOf true ('\n' :: w ++ rest) (.piece ⟨.whitespace, '\n' :: w, []⟩ rest) :=
    .piece (k := .whitespace) (row_cons (by decide) hw) hrest (by simp)
  -- The other run drops it, and reads the other blanks if there are any.
  have hdropped : FrontOf false (v ++ '\n' :: (w ++ rest))
      (.piece ⟨.comment, v, ['\n']⟩ (w ++ rest)) := .commentLine rfl hv
  obtain ⟨bs, hbs, hlocated⟩ := hqs.behindLineFeed hw hrest (loc.after v)
  have hvalue : String.ofList ('\n' :: w) = "\n" ++ String.ofList w := by
    rw [← String.toList_inj]
    simp
  refine ⟨_, _, .cons hkept (.cons hblank hps), .cons hdropped hbs, ?_⟩
  simp only [located, Piece.source_mk, Token.Kind.written, List.append_nil, Location.after_append]
  show DropsLineFeeds _ (_ :: located ((loc.after v).advance '\n') (bs ++ qs))
  rw [hlocated]
  exact .comment rfl rfl hvalue hdrops

/-- Both runs cut a text as far as the same rest, where neither finds a piece. -/
theorem exists_cutsBoth (loc : Location) (r : List Char) :
    ∃ rest o, CutsBoth loc r rest ∧ FrontOf true rest o ∧ FrontOf false rest o ∧
      ∀ p rest', o ≠ .piece p rest' := by
  obtain ⟨o, ho⟩ := exists_frontOf true r
  by_cases hpiece : ∃ p rest, o = .piece p rest
  · obtain ⟨p, rest, rfl⟩ := hpiece
    by_cases hk : p.kind = .comment
    · obtain ⟨v, rfl, hv, rfl, rfl | ⟨r', rfl⟩⟩ := ho.of_kind_eq_comment hk
      · exact ⟨[], .ended, .lastComment loc hv, .ended, .ended, by simp⟩
      · obtain ⟨w, rest, rfl, hw, hrest⟩ := exists_span isBlank r'
        have hlt : rest.length < (v ++ '\n' :: (w ++ rest)).length := by
          simp only [List.length_append, List.length_cons]
          omega
        obtain ⟨rest', o, hcuts, hfronts⟩ := exists_cutsBoth ((loc.after v).after ('\n' :: w)) rest
        exact ⟨rest', o, .commentLine hv hw hrest hcuts, hfronts⟩
    · have hlt := ho.length_lt
      obtain ⟨rest', o, hcuts, hfronts⟩ := exists_cutsBoth (loc.after p.source) rest
      exact ⟨rest', o, .piece ho hk hcuts, hfronts⟩
  · have hno : ∀ p rest, o ≠ .piece p rest := by
      intro p rest h
      exact hpiece ⟨p, rest, h⟩
    exact ⟨r, o, .nil loc r, ho, ho.of_not_piece hno false, hno⟩
termination_by r.length

/-- The runs over a text that keep and that drop the line feeds behind comments end in the same
    way, at the end of the text or with one and the same problem.  Their tokens differ by these
    line feeds only, and without discardable tokens they do not differ at all. -/
theorem exists_finishes_dropsLineFeeds (text filename : String) :
    (∃ ts us problem, (Lexer.ofText text filename true).Finishes ts problem ∧
      (Lexer.ofText text filename false).Finishes us problem ∧ DropsLineFeeds ts us) ∧
    tokenize text filename true true = tokenize text filename false true := by
  obtain ⟨rest, o, ⟨ps, qs, hps, hqs, hdrops⟩, hotrue, hofalse, hno⟩ :=
    exists_cutsBoth (.start filename) text.toList
  have hkept := hps.finishes hotrue hno (Lexer.before_ofText text filename true)
  have hdropped := hqs.finishes hofalse hno (Lexer.before_ofText text filename false)
  -- Both runs stop at the same rest, so they stop at the same location.
  have hsources : sources ps = sources qs := by
    have happend : sources ps ++ rest = sources qs ++ rest := by
      rw [← hps.eq_sources_append, ← hqs.eq_sources_append]
    exact List.append_cancel_right happend
  rw [← hsources] at hdropped
  constructor
  · exact ⟨_, _, _, hkept, hdropped, hdrops⟩
  · rw [hkept.tokenize true, hdropped.tokenize true, Token.passed_true, Token.passed_true,
      hdrops.screen_eq]

end RpalLex
