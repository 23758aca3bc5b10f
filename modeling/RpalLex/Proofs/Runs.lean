import RpalLex.Proofs.FirstToken

/-! # Runs of the lexer over a text

  A text is *cut* into pieces from its front on (§1).  A lexer that stands in
  front of a text delivers the tokens of these pieces, one with every call,
  each at the location behind the pieces before it (§2, §3).  A call without
  a token changes nothing any more (§4).

  Main statements: `cuts_cases` (a text is cut up to its end, up to a
  character that cannot stand where it does, or up to a string literal that
  is not closed), `Cuts.congr_rest` (how a text is cut depends on what follows
  by one character only), `Delivers.cuts` and `Cuts.delivers` (delivered
  tokens are the pieces of the text), and `Before.delivers_of_afterCalls`
  (every call belongs to a run or repeats the answer that ended it). -/

namespace RpalLex

/-! ## §1. Cutting a text -/

/-- The first text is cut into pieces as far as the second. -/
inductive Cuts (keepNewline : Bool) : List Char → List Piece → List Char → Prop where
  | nil (r : List Char) : Cuts keepNewline r [] r
  | cons {r rest rest' : List Char} {p : Piece} {ps : List Piece} :
      FrontOf keepNewline r (.piece p rest) → Cuts keepNewline rest ps rest' →
      Cuts keepNewline r (p :: ps) rest'

/-- All that belongs to the pieces. -/
def sources (ps : List Piece) : List Char := ps.flatMap Piece.source

/-- The tokens of pieces that stand one after another from a location on. -/
def located : Location → List Piece → List Token
  | _, [] => []
  | loc, p :: ps => p.token loc :: located (loc.after p.source) ps

@[simp] theorem sources_nil : sources [] = [] := rfl

@[simp] theorem sources_cons (p : Piece) (ps : List Piece) :
    sources (p :: ps) = p.source ++ sources ps := rfl

theorem sources_append (ps qs : List Piece) : sources (ps ++ qs) = sources ps ++ sources qs :=
  List.flatMap_append

theorem sources_concat (ps : List Piece) (p : Piece) :
    sources (ps ++ [p]) = sources ps ++ p.source := by
  simp [sources]

theorem located_append (loc : Location) (ps qs : List Piece) :
    located loc (ps ++ qs) = located loc ps ++ located (loc.after (sources ps)) qs := by
  induction ps generalizing loc with
  | nil => rfl
  | cons p ps ih =>
    rw [List.cons_append, located, ih, sources_cons, Location.after_append]
    rfl

theorem located_concat (loc : Location) (ps : List Piece) (p : Piece) :
    located loc (ps ++ [p]) = located loc ps ++ [p.token (loc.after (sources ps))] :=
  located_append loc ps [p]

variable {keepNewline : Bool} {r rest rest' : List Char} {ps qs : List Piece}

namespace Cuts

theorem eq_sources_append (h : Cuts keepNewline r ps rest) : r = sources ps ++ rest := by
  induction h with
  | nil r => rfl
  | cons hp _ ih => rw [hp.eq_source_append, ih, sources_cons, List.append_assoc]

theorem append (h : Cuts keepNewline r ps rest) (h' : Cuts keepNewline rest qs rest') :
    Cuts keepNewline r (ps ++ qs) rest' := by
  induction h with
  | nil r => exact h'
  | cons hp _ ih => exact .cons hp (ih h')

/-- The last piece can be taken off. -/
theorem of_concat {p : Piece} (h : Cuts keepNewline r (ps ++ [p]) rest) :
    ∃ mid, Cuts keepNewline r ps mid ∧ FrontOf keepNewline mid (.piece p rest) := by
  induction ps generalizing r with
  | nil =>
    cases h with
    | cons hp hnil =>
      cases hnil
      exact ⟨r, .nil r, hp⟩
  | cons q ps ih =>
    cases h with
    | cons hq hrest =>
      obtain ⟨mid, hps, hp⟩ := ih hrest
      exact ⟨mid, .cons hq hps, hp⟩

theorem congr_rest (h : Cuts keepNewline r ps rest) (hhead : rest.head? = rest'.head?) :
    Cuts keepNewline (sources ps ++ rest') ps rest' := by
  induction h with
  | nil r => exact .nil rest'
  | @cons r rest1 rest p ps hp hps ih =>
    -- The piece is followed by the other pieces, and only if there are none by the rest.
    have hhead1 : rest1.head? = (sources ps ++ rest').head? := by
      rw [hps.eq_sources_append, List.head?_append, List.head?_append, hhead]
    rw [sources_cons, List.append_assoc]
    exact .cons (hp.congr_rest hhead1) (ih hhead)

/-- More text at the end does not disturb the pieces that something follows. -/
theorem extend (h : Cuts keepNewline r ps rest) (hne : rest ≠ []) (q : List Char) :
    Cuts keepNewline (r ++ q) ps (rest ++ q) := by
  have hhead : rest.head? = (rest ++ q).head? := by
    obtain ⟨c, rest, rfl⟩ := List.exists_cons_of_ne_nil hne
    rfl
  have hcuts := h.congr_rest hhead
  rwa [← List.append_assoc, ← h.eq_sources_append] at hcuts

end Cuts

/-- Every text is cut into pieces as far as something else than a piece. -/
theorem exists_cuts (keepNewline : Bool) (r : List Char) :
    ∃ ps rest o, Cuts keepNewline r ps rest ∧ FrontOf keepNewline rest o ∧
      ∀ p rest', o ≠ .piece p rest' := by
  obtain ⟨o, ho⟩ := exists_frontOf keepNewline r
  match o, ho with
  | .piece p rest, hp =>
    have hlt := hp.length_lt
    obtain ⟨ps, rest', o, hps, ho, hno⟩ := exists_cuts keepNewline rest
    exact ⟨p :: ps, rest', o, .cons hp hps, ho, hno⟩
  | .ended, ho => exact ⟨[], r, _, .nil r, ho, by simp⟩
  | .invalid _ _ _, ho => exact ⟨[], r, _, .nil r, ho, by simp⟩
  | .unterminated, ho => exact ⟨[], r, _, .nil r, ho, by simp⟩
termination_by r.length

/-- A text is cut into pieces up to its end, or an invalid character is met, or a string literal
    is left open. -/
theorem cuts_cases (keepNewline : Bool) (r : List Char) :
    (∃ ps, Cuts keepNewline r ps []) ∨
    (∃ ps rest before c context, Cuts keepNewline r ps rest ∧
      FrontOf keepNewline rest (.invalid before c context)) ∨
    (∃ ps rest, Cuts keepNewline r ps rest ∧ FrontOf keepNewline rest .unterminated) := by
  obtain ⟨ps, rest, o, hps, ho, hno⟩ := exists_cuts keepNewline r
  cases o with
  | piece p rest' => exact absurd rfl (hno p rest')
  | ended => cases ho; exact .inl ⟨ps, hps⟩
  | invalid before c context => exact .inr (.inl ⟨ps, rest, before, c, context, hps, ho⟩)
  | unterminated => exact .inr (.inr ⟨ps, rest, hps, ho⟩)

/-! ## §2. One call -/

namespace Lexer

variable {lx lx' lx'' : Lexer} {loc : Location} {t : Token} {ts : List Token} {p : Piece}

/-- The lexer has met no error, stands at a location, and a text is all that will come. -/
structure Before (keepNewline : Bool) (lx : Lexer) (loc : Location) (r : List Char) : Prop where
  keepNewline_eq : lx.keepNewline = keepNewline
  failure_eq : lx.failure = none
  cursor : lx.cursor.Before loc r

theorem before_ofText (text filename : String) (keepNewline : Bool) :
    (ofText text filename keepNewline).Before keepNewline (.start filename) text.toList where
  keepNewline_eq := rfl
  failure_eq := rfl
  cursor := (Cursor.fresh_ofText text filename).toBefore

theorem answer_next (hf : lx.failure = none) :
    lx.next.1 = (lx.cursor.nextToken lx.keepNewline).1 := by
  unfold next
  simp only [hf]
  split
  · next h => rw [h]
  · next h => rw [h]
  · next h => rw [h]
  · next h => rw [h]

theorem next_of_token {cur : Cursor} (hf : lx.failure = none)
    (h : lx.cursor.nextToken lx.keepNewline = (.ok (some t), cur)) :
    lx.next = (.ok (some t), { lx with cursor := cur, tokenCount := lx.tokenCount + 1 }) := by
  simp only [next, hf, h]

theorem next_of_none {cur : Cursor} (hf : lx.failure = none)
    (h : lx.cursor.nextToken lx.keepNewline = (.ok none, cur)) :
    lx.next = (.ok none, { lx with cursor := cur }) := by
  simp only [next, hf, h]

theorem next_of_lexical {e : LexError} {cur : Cursor} (hf : lx.failure = none)
    (h : lx.cursor.nextToken lx.keepNewline = (.error (.lexical e), cur)) :
    lx.next = (.error (.lexical e), { lx with cursor := cur.close, failure := some e }) := by
  simp only [next, hf, h]

theorem next_of_failure {e : LexError} (hf : lx.failure = some e) :
    lx.next = (.error (.lexical e), lx) := by
  simp only [next, hf]

/-- The answer of a call is known from the front of the text. -/
theorem Before.answer_next {o : Front} (h : lx.Before keepNewline loc r)
    (ho : FrontOf keepNewline r o) : lx.next.1 = o.answer loc := by
  obtain ⟨rfl, hfailure, hcursor⟩ := h
  rw [Lexer.answer_next hfailure, (hcursor.nextToken ho).1]

/-- A piece at the front of the text is delivered. -/
theorem Before.next_piece (h : lx.Before keepNewline loc r)
    (hp : FrontOf keepNewline r (.piece p rest)) :
    ∃ lx', lx.next = (.ok (some (p.token loc)), lx') ∧
      lx'.Before keepNewline (loc.after p.source) rest ∧
      lx'.cursor.Left keepNewline p.kind (loc.after p.source) rest := by
  obtain ⟨rfl, hfailure, hcursor⟩ := h
  obtain ⟨htoken, hleft⟩ := hcursor.nextToken hp
  exact ⟨_, next_of_token hfailure (Prod.ext htoken rfl), ⟨rfl, hfailure, hleft.before⟩, hleft⟩

/-- A token that was delivered is the piece at the front of the text. -/
theorem Before.of_next_token (h : lx.Before keepNewline loc r)
    (hnext : lx.next = (.ok (some t), lx')) :
    ∃ p rest, FrontOf keepNewline r (.piece p rest) ∧ t = p.token loc ∧
      lx'.Before keepNewline (loc.after p.source) rest ∧
      lx'.cursor.Left keepNewline p.kind (loc.after p.source) rest := by
  -- Something stands at the front, and only a piece is answered by a token.
  obtain ⟨o, ho⟩ := exists_frontOf keepNewline r
  have hanswer := h.answer_next ho
  rw [hnext] at hanswer
  cases o with
  | piece p rest =>
    obtain ⟨lx1, hnext1, hbefore, hleft⟩ := h.next_piece ho
    rw [hnext1] at hnext
    cases hnext
    exact ⟨p, rest, ho, rfl, hbefore, hleft⟩
  | ended => cases hanswer
  | invalid => cases hanswer
  | unterminated => cases hanswer

theorem Before.of_next_none (h : lx.Before keepNewline loc r) (hnext : lx.next.1 = .ok none) :
    r = [] := by
  obtain ⟨o, ho⟩ := exists_frontOf keepNewline r
  have hanswer := h.answer_next ho
  rw [hnext] at hanswer
  cases o with
  | ended => cases ho; rfl
  | piece => cases hanswer
  | invalid => cases hanswer
  | unterminated => cases hanswer

theorem Before.of_next_unterminated {at? : Option Location} (h : lx.Before keepNewline loc r)
    (hnext : lx.next.1 = .error (.lexical (.unterminatedString at?))) :
    FrontOf keepNewline r .unterminated ∧ at? = some loc := by
  obtain ⟨o, ho⟩ := exists_frontOf keepNewline r
  have hanswer := h.answer_next ho
  rw [hnext] at hanswer
  cases o with
  | unterminated => cases hanswer; exact ⟨ho, rfl⟩
  | ended => cases hanswer
  | piece => cases hanswer
  | invalid => cases hanswer

/-! ## §3. Many calls -/

/-- The lexer delivers the tokens in as many calls, and they leave it as the second lexer. -/
inductive Delivers : Lexer → List Token → Lexer → Prop where
  | nil (lx : Lexer) : Delivers lx [] lx
  | cons {lx lx' lx'' : Lexer} {t : Token} {ts : List Token} :
      lx.next = (.ok (some t), lx') → Delivers lx' ts lx'' → Delivers lx (t :: ts) lx''

theorem Delivers.cons_of_answer (h : lx.next.1 = .ok (some t)) (hrest : Delivers lx.next.2 ts lx') :
    Delivers lx (t :: ts) lx' :=
  .cons (Prod.ext h rfl) hrest

/-- One more call. -/
theorem Delivers.concat (h : Delivers lx ts lx') (hnext : lx'.next = (.ok (some t), lx'')) :
    Delivers lx (ts ++ [t]) lx'' := by
  induction h with
  | nil lx => exact .cons hnext (.nil lx'')
  | cons hfirst _ ih => exact .cons hfirst (ih hnext)

theorem Delivers.cuts (h : Delivers lx ts lx') (hlx : lx.Before keepNewline loc r) :
    ∃ ps rest, Cuts keepNewline r ps rest ∧ ts = located loc ps ∧
      lx'.Before keepNewline (loc.after (sources ps)) rest := by
  induction h generalizing loc r with
  | nil lx => exact ⟨[], r, .nil r, rfl, hlx⟩
  | cons hnext _ ih =>
    obtain ⟨p, rest1, hp, rfl, hlx1, -⟩ := hlx.of_next_token hnext
    obtain ⟨ps, rest, hps, rfl, hlx'⟩ := ih hlx1
    -- The later pieces stand behind this one.
    rw [← Location.after_append] at hlx'
    exact ⟨p :: ps, rest, .cons hp hps, rfl, hlx'⟩

end Lexer

theorem Cuts.delivers {lx : Lexer} {loc : Location} (h : Cuts keepNewline r ps rest)
    (hlx : lx.Before keepNewline loc r) :
    ∃ lx', lx.Delivers (located loc ps) lx' ∧
      lx'.Before keepNewline (loc.after (sources ps)) rest := by
  induction h generalizing lx loc with
  | nil r => exact ⟨lx, .nil lx, hlx⟩
  | cons hp _ ih =>
    obtain ⟨lx1, hnext, hlx1, -⟩ := hlx.next_piece hp
    obtain ⟨lx', hdelivers, hlx'⟩ := ih hlx1
    rw [← Location.after_append] at hlx'
    exact ⟨lx', .cons hnext hdelivers, hlx'⟩

/-! ## §4. Calls after the last token

  A call that delivers no token is answered in the same way ever after: at
  the end the cursor stays where it is, and an error is remembered. -/

namespace Lexer

variable {lx lx' lx'' : Lexer} {loc : Location} {t : Token} {ts : List Token}

/-- The lexer after a number of calls, whatever their answers are. -/
def afterCalls : Lexer → Nat → Lexer
  | lx, 0 => lx
  | lx, n + 1 => lx.next.2.afterCalls n

theorem afterCalls_add (lx : Lexer) (n m : Nat) :
    lx.afterCalls (n + m) = (lx.afterCalls n).afterCalls m := by
  induction n generalizing lx with
  | zero => rw [Nat.zero_add]; rfl
  | succ n ih =>
    rw [Nat.add_right_comm]
    exact ih lx.next.2

/-- An error is remembered. -/
theorem failure_next {e : LexError} (h : lx.next.1 = .error (.lexical e)) :
    lx.next.2.failure = some e := by
  cases hf : lx.failure with
  | some e' =>
    rw [next_of_failure hf] at h ⊢
    cases h
    exact hf
  | none =>
    -- The cursor has just found the error.
    rw [answer_next hf] at h
    rw [next_of_lexical hf (Prod.ext h rfl)]

theorem next_of_error {e : LexError} (h : lx.next.1 = .error (.lexical e)) :
    lx.next.2.next = (.error (.lexical e), lx.next.2) :=
  next_of_failure (failure_next h)

theorem answer_afterCalls_of_error {e : LexError} (h : lx.next.1 = .error (.lexical e)) (n : Nat) :
    (lx.afterCalls n).next.1 = .error (.lexical e) := by
  induction n generalizing lx with
  | zero => exact h
  | succ n ih => exact ih (by rw [next_of_error h])

theorem Before.next_ended (h : lx.Before keepNewline loc []) :
    lx.next.2.Before keepNewline loc [] := by
  obtain ⟨rfl, hfailure, hcursor⟩ := h
  have hended : FrontOf lx.keepNewline [] .ended := .ended
  obtain ⟨hend, hpeeked⟩ := hcursor.nextToken hended
  rw [next_of_none hfailure (Prod.ext hend rfl)]
  exact ⟨rfl, hfailure, hpeeked.toBefore⟩

theorem Before.afterCalls_ended (h : lx.Before keepNewline loc []) (n : Nat) :
    (lx.afterCalls n).Before keepNewline loc [] := by
  induction n generalizing lx with
  | zero => exact h
  | succ n ih => exact ih h.next_ended

theorem Before.answer_afterCalls (h : lx.Before keepNewline loc r)
    (hno : ∀ t, lx.next.1 ≠ .ok (some t)) (n : Nat) :
    (lx.afterCalls n).next.1 = lx.next.1 := by
  obtain ⟨o, ho⟩ := exists_frontOf keepNewline r
  have hanswer := h.answer_next ho
  cases o with
  | piece p rest => exact absurd hanswer (hno _)
  | ended =>
    -- Nothing is remembered, but there is still nothing to come.
    cases ho
    rw [(h.afterCalls_ended n).answer_next .ended, hanswer]
  | invalid => rw [answer_afterCalls_of_error hanswer, hanswer]; rfl
  | unterminated => rw [answer_afterCalls_of_error hanswer, hanswer]; rfl

/-- After any number of calls, either all of them delivered tokens, or the next call is answered
    like the first one that delivered none. -/
theorem Before.delivers_of_afterCalls (h : lx.Before keepNewline loc r) (n : Nat) :
    ∃ ts lx', lx.Delivers ts lx' ∧ (ts.length = n ∧ lx.afterCalls n = lx' ∨
      ts.length < n ∧ (∀ t, lx'.next.1 ≠ .ok (some t)) ∧
        (lx.afterCalls n).next.1 = lx'.next.1) := by
  induction n generalizing lx loc r with
  | zero => exact ⟨[], lx, .nil lx, .inl ⟨rfl, rfl⟩⟩
  | succ n ih =>
    -- The first call decides: it delivers a token, or all calls are answered like it.
    by_cases hno : ∀ t, lx.next.1 ≠ .ok (some t)
    · exact ⟨[], lx, .nil lx, .inr ⟨by simp, hno, h.answer_afterCalls hno (n + 1)⟩⟩
    · obtain ⟨t, ht⟩ : ∃ t, lx.next.1 = .ok (some t) := by simpa using hno
      have hnext : lx.next = (.ok (some t), lx.next.2) := Prod.ext ht rfl
      obtain ⟨p, rest, -, -, hlx1, -⟩ := h.of_next_token hnext
      obtain ⟨ts, lx', hrun, hlast⟩ := ih hlx1
      refine ⟨t :: ts, lx', .cons hnext hrun, ?_⟩
      rw [afterCalls, List.length_cons, Nat.add_right_cancel_iff, Nat.add_lt_add_iff_right]
      exact hlast

end Lexer

end RpalLex
