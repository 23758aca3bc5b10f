import RpalLex.Lexer
import RpalLex.Proofs.Reading

/-! # The first token of a text

  The grammar says what stands at the front of a text; the cursor finds it.
  The first character decides which lexeme is read, and the lexeme reads as
  far as the piece goes (§2).  Where a piece ends by looking at the character
  behind it, that character waits in the slot afterwards; a string literal, a
  punctuation mark and a comment whose line feed is dropped end without a
  look, and leave the slot empty (§1).

  Main statement: `Before.nextToken` (the next token is the front of the text
  that is to come, and the cursor stands behind it, or names what is wrong
  where it is wrong). -/

namespace RpalLex

open Alphabet

/-! ## §1. What a piece leaves behind -/

/-- Does a token of the kind end where it does because of a character that was looked at? -/
def Token.Kind.peeks (keepNewline : Bool) : Token.Kind → Bool
  | identifier | reserved | integer | operator | whitespace => true
  | comment => keepNewline
  | _ => false

/-- What is said of the front of a text that begins at a location. -/
def Front.answer (loc : Location) : Front → Except Problem (Option Token)
  | .ended => .ok none
  | .piece p _ => .ok (some (p.token loc))
  | .invalid before c context =>
    .error (.lexical (.invalidCharacter c (some (loc.after before)) context))
  | .unterminated => .error (.lexical (.unterminatedString (some loc)))

namespace Cursor

/-- The cursor after a token of a kind: in front of `r`, and it has looked at the next character
    if that kind of token does. -/
def Left (keepNewline : Bool) (k : Token.Kind) (cur : Cursor) (loc : Location) (r : List Char) :
    Prop :=
  if k.peeks keepNewline then cur.Peeked loc r else cur.Fresh loc r

theorem Left.before {keepNewline : Bool} {k : Token.Kind} {cur : Cursor} {loc : Location}
    {r : List Char} (h : cur.Left keepNewline k loc r) : cur.Before loc r := by
  unfold Left at h
  split at h
  · exact h.toBefore
  · exact h.toBefore

/-- Where nothing follows there is nothing to look at. -/
theorem Left.fresh_of_nil {keepNewline : Bool} {k : Token.Kind} {cur : Cursor} {loc : Location}
    (h : cur.Left keepNewline k loc []) : cur.Fresh loc [] := by
  unfold Left at h
  split at h
  · exact h.fresh_of_nil
  · exact h

/-- The cursor after what stood at the front of a text that began at a location.  After an error
    nothing is said about it. -/
def Behind (keepNewline : Bool) (loc : Location) : Front → Cursor → Prop
  | .ended, cur => cur.Peeked loc []
  | .piece p rest, cur => cur.Left keepNewline p.kind (loc.after p.source) rest
  | _, _ => True

variable {keepNewline : Bool} {cur : Cursor} {loc start : Location} {c : Char}
  {u v r rest : List Char}

/-! ## §2. Lexemes after their first characters -/

/-- Words, integers, white space and operators are rows behind a first character. -/
theorem Before.mapAnswer_munch {accept : Char → Bool} (h : cur.Before loc (u ++ rest))
    (hu : ∀ d ∈ u, accept d = true) (hrest : Stops accept rest) (f : List Char → Token) :
    ∃ cur', (cur.munch accept [c]).mapAnswer f = (.ok (f (c :: u)), cur') ∧
      cur'.Peeked (loc.after u) rest := by
  obtain ⟨cur', hmunch, hcur'⟩ := h.munch hu hrest [c]
  refine ⟨cur', ?_, hcur'⟩
  rw [hmunch]
  rfl

/-- The second character of an operator is looked at, given back and read again. -/
theorem Before.operator (h : cur.Before loc (u ++ rest)) (hslashes : ¬ ['/', '/'] <+: c :: u)
    (hu : ∀ d ∈ u, isOperatorSymbol d = true) (hrest : Stops isOperatorSymbol rest) :
    ∃ cur', cur.operator keepNewline c start = (.ok (tokenOf .operator start (c :: u)), cur') ∧
      cur'.Peeked (loc.after u) rest := by
  unfold Cursor.operator
  cases hur : u ++ rest with
  | nil =>
    obtain ⟨rfl, rfl⟩ := List.append_eq_nil_iff.1 hur
    obtain ⟨cur', hnext, hcur'⟩ := h.next_nil
    refine ⟨cur', ?_, hcur'⟩
    rw [hnext]
  | cons second others =>
    -- The second character belongs to the operator or stops it; in neither case are there two
    -- slashes.
    have hne : ¬ (c = '/' ∧ second = '/') := by
      rintro ⟨rfl, rfl⟩
      cases u with
      | nil =>
        have hstop : isOperatorSymbol '/' = false := hrest '/' (by rw [show rest = _ from hur]; rfl)
        exact absurd hstop (by decide)
      | cons d u =>
        obtain rfl : d = '/' := (List.cons.inj hur).1
        exact hslashes ⟨u, rfl⟩
    rw [hur] at h
    obtain ⟨cur1, hnext, -, cur2, hback, hcur2⟩ := h.next_cons
    have hagain : cur2.Before loc (u ++ rest) := by
      rw [hur]
      exact hcur2.toBefore
    obtain ⟨cur', hmunch, hcur'⟩ := hagain.mapAnswer_munch (c := c) hu hrest (tokenOf .operator start)
    refine ⟨cur', ?_, hcur'⟩
    simp only [hnext, hne, if_false, hback, hmunch]

/-- Two slashes hand over to the comment. -/
theorem Before.operator_slashes (h : cur.Before loc ('/' :: r)) :
    ∃ cur' : Cursor, cur.operator keepNewline '/' start = cur'.comment keepNewline start ∧
      cur'.Before (loc.advance '/') r := by
  obtain ⟨cur', hnext, hcur', -⟩ := h.next_cons
  refine ⟨cur', ?_, hcur'.toBefore⟩
  simp [Cursor.operator, hnext]

theorem Before.comment (h : cur.Before loc (u ++ rest)) (hu : ∀ d ∈ u, isCommentBody d = true)
    (hrest : Stops (· != '\n') rest) (hkept : keepNewline = true ∨ rest = []) :
    ∃ cur', cur.comment keepNewline start =
        (.ok (tokenOf .comment start ('/' :: '/' :: u)), cur') ∧
      cur'.Left keepNewline .comment (loc.after u) rest := by
  have hs := extendAll_commentRule keepNewline hu ['/', '/']
  have htext : (u.reverse ++ ['/', '/']).reverse = '/' :: '/' :: u := by simp
  unfold Cursor.comment
  cases rest with
  | nil =>
    obtain ⟨cur', hgather, hcur'⟩ := Before.gather_end (by simpa using h) hs
    refine ⟨cur', ?_, ?_⟩
    · rw [hgather]
      simp [commentRule, Except.mapError, tokenOf]
    · -- At the end the slot is empty whether or not the line feed would have been kept.
      unfold Left
      split
      · exact hcur'
      · exact hcur'.fresh_of_nil
  | cons d rest =>
    obtain rfl : d = '\n' := by simpa using hrest d rfl
    obtain rfl : keepNewline = true := by simpa using hkept
    obtain ⟨cur', hgather, hcur'⟩ := h.gather_stopBefore hs (a := '/' :: '/' :: u)
      (by simp [commentRule])
    refine ⟨cur', ?_, hcur'⟩
    rw [hgather]
    rfl

theorem Before.comment_line (h : cur.Before loc (u ++ '\n' :: rest))
    (hu : ∀ d ∈ u, isCommentBody d = true) :
    ∃ cur', cur.comment false start = (.ok (tokenOf .comment start ('/' :: '/' :: u)), cur') ∧
      cur'.Fresh (loc.after (u ++ ['\n'])) rest := by
  have hs := extendAll_commentRule false hu ['/', '/']
  obtain ⟨cur', hgather, hcur'⟩ := h.gather_finish hs (a := '/' :: '/' :: u)
    (by simp [commentRule])
  refine ⟨cur', ?_, hcur'⟩
  rw [Cursor.comment, hgather]
  rfl

theorem Before.comment_stray (h : cur.Before loc (u ++ c :: rest))
    (hu : ∀ d ∈ u, isCommentBody d = true) (hne : c ≠ '\n') (hc : isCommentBody c = false) :
    (cur.comment keepNewline start).1 =
      .error (.lexical (.invalidCharacter c (some (loc.after u)) (some "comment"))) := by
  have hs := extendAll_commentRule keepNewline hu ['/', '/']
  have hreject : (commentRule keepNewline).onChar (u.reverse ++ ['/', '/']) c =
      .reject (some "comment") := by simp [commentRule, hne, hc]
  have hgather := h.gather_reject hs hreject
  unfold Cursor.comment Outcome.mapAnswer
  rw [hgather]
  rfl

theorem Before.literal (h : cur.Before loc (v ++ quote :: rest)) (hv : OpenBody v false) :
    ∃ cur', cur.literal start = (.ok (tokenOf .string start v), cur') ∧
      cur'.Fresh (loc.after (v ++ [quote])) rest := by
  have hs := extendAll_literalRule start hv []
  obtain ⟨cur', hgather, hcur'⟩ := h.gather_finish hs (a := v) (by simp [literalRule])
  refine ⟨cur', ?_, hcur'⟩
  rw [Cursor.literal, hgather]
  rfl

theorem Before.literal_stray {pending : Bool} (h : cur.Before loc (v ++ c :: rest))
    (hv : OpenBody v pending) (hne : c ≠ quote) (hc : isStringBody c = false) :
    (cur.literal start).1 =
      .error (.lexical (.invalidCharacter c (some (loc.after v)) (some "string literal"))) := by
  have hs := extendAll_literalRule start hv []
  -- Even a pending escape does not take the character.
  have hesc : isEscapable c = false := by
    cases he : isEscapable c with
    | false => rfl
    | true => rw [isStringBody_of_isEscapable he hne] at hc; cases hc
  have hreject : (literalRule start).onChar ⟨v.reverse ++ [], pending⟩ c =
      .reject (some "string literal") := by simp [literalRule, hne, hc, hesc]
  have hgather := h.gather_reject hs hreject
  unfold Cursor.literal Outcome.mapAnswer
  rw [hgather]
  rfl

theorem Before.literal_unterminated {pending : Bool} (h : cur.Before loc v)
    (hv : OpenBody v pending) (start : Location) :
    ∃ cur', cur.literal start =
        (.error (.lexical (.unterminatedString (some start))), cur') ∧
      cur'.Peeked (loc.after v) [] := by
  have hs := extendAll_literalRule start hv []
  obtain ⟨cur', hgather, hcur'⟩ := h.gather_end hs
  refine ⟨cur', ?_, hcur'⟩
  rw [Cursor.literal, hgather]
  rfl

/-! ## §3. The front of a text -/

theorem Before.nextToken_cons {k : StartClass} (h : cur.Before loc (c :: r))
    (hk : k.contains c = true) :
    ∃ cur' : Cursor, cur.nextToken keepNewline =
        (cur'.lexeme keepNewline k c loc).mapAnswer some ∧ cur'.Before (loc.advance c) r := by
  obtain ⟨cur', hnext, hcur', -⟩ := h.next_cons
  refine ⟨cur', ?_, hcur'.toBefore⟩
  unfold Cursor.nextToken
  simp only [hnext, StartClass.ofChar?_eq_some_iff.2 hk, h.location_eq]

/-- A comment is read through its two slashes. -/
theorem Before.nextToken_slashes (h : cur.Before loc ('/' :: '/' :: r)) :
    ∃ cur' : Cursor, cur.nextToken keepNewline = (cur'.comment keepNewline loc).mapAnswer some ∧
      cur'.Before (loc.after ['/', '/']) r := by
  obtain ⟨cur1, hnext, hcur1⟩ := h.nextToken_cons (k := .operator) (by decide)
  obtain ⟨cur', hoperator, hcur'⟩ := hcur1.operator_slashes
  refine ⟨cur', ?_, hcur'⟩
  rw [hnext, lexeme, hoperator]

/-- A start class whose lexeme is a row behind the first character. -/
theorem Before.nextToken_row {k : StartClass} {accept : Char → Bool} {f : List Char → Token}
    (h : cur.Before loc (c :: u ++ rest)) (hc : k.contains c = true)
    (hlexeme : ∀ cur' : Cursor, cur'.lexeme keepNewline k c loc =
      (cur'.munch accept [c]).mapAnswer f)
    (hu : ∀ d ∈ u, accept d = true) (hrest : Stops accept rest) :
    ∃ cur', cur.nextToken keepNewline = (.ok (some (f (c :: u))), cur') ∧
      cur'.Peeked (loc.after (c :: u)) rest := by
  obtain ⟨cur1, hnext, hcur1⟩ := h.nextToken_cons hc
  obtain ⟨cur', hmunch, hcur'⟩ := hcur1.mapAnswer_munch (c := c) hu hrest f
  refine ⟨cur', ?_, hcur'⟩
  rw [hnext, hlexeme, hmunch]
  rfl

/-- Words of both kinds are read alike; the table of reserved words tells them apart. -/
theorem Before.nextToken_word (h : cur.Before loc (v ++ rest)) (hv : IsWord v)
    (hrest : Stops isIdentifierChar rest) :
    ∃ cur', cur.nextToken keepNewline =
        (.ok (some (Token.ofWord (String.ofList v) loc)), cur') ∧
      cur'.Peeked (loc.after v) rest := by
  obtain ⟨c, u, rfl, hc, hu⟩ := hv
  exact h.nextToken_row (k := .letter) hc (fun _ => rfl) hu hrest

theorem Before.nextToken_mark {k : Token.Kind} (h : cur.Before loc (c :: rest))
    (hmark : Token.Kind.ofMark? c = some k) :
    ∃ cur', cur.nextToken keepNewline = (.ok (some (tokenOf k loc [c])), cur') ∧
      cur'.Fresh (loc.after [c]) rest := by
  obtain ⟨cur', hnext, hcur', -⟩ := h.next_cons
  have hc : StartClass.punctuation.contains c = true := by
    rw [StartClass.contains, ← Token.Kind.isSome_ofMark?, hmark]
    rfl
  refine ⟨cur', ?_, hcur'⟩
  unfold Cursor.nextToken
  simp only [hnext, StartClass.ofChar?_eq_some_iff.2 hc, lexeme, mark, hmark, h.location_eq]
  rfl

/-- A piece that is not cut short is the next token. -/
theorem Before.nextToken_piece {k : Token.Kind} (h : cur.Before loc (k.written v ++ rest))
    (hv : k.Language v) (hrest : Stops k.continuedBy rest)
    (hkept : k = .comment → keepNewline = true ∨ rest = []) :
    ∃ cur', cur.nextToken keepNewline = (.ok (some (tokenOf k loc v)), cur') ∧
      cur'.Left keepNewline k (loc.after (k.written v)) rest := by
  cases k with
  | identifier =>
    have hword : cur.Before loc (v ++ rest) := h
    obtain ⟨cur', hnext, hcur'⟩ := hword.nextToken_word hv.1 hrest
    rw [Token.ofWord, hv.2] at hnext
    exact ⟨cur', hnext, hcur'⟩
  | reserved =>
    have hword : cur.Before loc (v ++ rest) := h
    have hres : Token.isReserved (String.ofList v) = true := hv
    obtain ⟨cur', hnext, hcur'⟩ := hword.nextToken_word (isWord_of_isReserved hres) hrest
    rw [Token.ofWord, hres] at hnext
    exact ⟨cur', hnext, hcur'⟩
  | integer =>
    obtain ⟨c, u, rfl⟩ := List.exists_cons_of_ne_nil hv.1
    obtain ⟨hc, hu⟩ := List.forall_mem_cons.1 hv.2
    exact h.nextToken_row (k := .digit) hc (fun _ => rfl) hu hrest
  | whitespace =>
    obtain ⟨c, u, rfl⟩ := List.exists_cons_of_ne_nil hv.1
    obtain ⟨hc, hu⟩ := List.forall_mem_cons.1 hv.2
    exact h.nextToken_row (k := .space) hc (fun _ => rfl) hu hrest
  | string =>
    have hquote : cur.Before loc (quote :: (v ++ quote :: rest)) := by
      simpa [Token.Kind.written] using h
    obtain ⟨cur1, hnext, hcur1⟩ := hquote.nextToken_cons (k := .quote) rfl
    obtain ⟨cur', hliteral, hcur'⟩ := hcur1.literal (openBody_false_iff.2 hv)
    refine ⟨cur', ?_, hcur'⟩
    rw [hnext, lexeme, hliteral]
    rfl
  | operator =>
    obtain ⟨c, u, rfl⟩ := List.exists_cons_of_ne_nil hv.1.1
    obtain ⟨hc, hu⟩ := List.forall_mem_cons.1 hv.1.2
    obtain ⟨cur1, hnext, hcur1⟩ := h.nextToken_cons (k := .operator) hc
    obtain ⟨cur', hoperator, hcur'⟩ := hcur1.operator hv.2 hu hrest
    refine ⟨cur', ?_, hcur'⟩
    rw [hnext, lexeme, hoperator]
    rfl
  | comment =>
    obtain ⟨u, rfl, hu⟩ := hv
    obtain ⟨cur1, hnext, hcur1⟩ := Before.nextToken_slashes (r := u ++ rest) h
    obtain ⟨cur', hcomment, hcur'⟩ := hcur1.comment hu hrest (hkept rfl)
    refine ⟨cur', ?_, hcur'⟩
    rw [hnext, hcomment]
    rfl
  | leftParen => obtain ⟨c, rfl, hmark⟩ := hv; exact h.nextToken_mark hmark
  | rightParen => obtain ⟨c, rfl, hmark⟩ := hv; exact h.nextToken_mark hmark
  | semicolon => obtain ⟨c, rfl, hmark⟩ := hv; exact h.nextToken_mark hmark
  | comma => obtain ⟨c, rfl, hmark⟩ := hv; exact h.nextToken_mark hmark

theorem Before.nextToken {o : Front} (h : cur.Before loc r) (ho : FrontOf keepNewline r o) :
    (cur.nextToken keepNewline).1 = o.answer loc ∧
      Behind keepNewline loc o (cur.nextToken keepNewline).2 := by
  cases ho with
  | ended =>
    obtain ⟨cur', hnext, hcur'⟩ := h.next_nil
    simp only [Cursor.nextToken, hnext]
    exact ⟨rfl, hcur'⟩
  | piece hv hrest hkept =>
    obtain ⟨cur', hnext, hcur'⟩ := h.nextToken_piece hv hrest hkept
    rw [hnext]
    exact ⟨rfl, by simpa [Behind, Piece.source, Piece.text] using hcur'⟩
  | @commentLine _ rest hdrop hv =>
    subst hdrop
    obtain ⟨u, rfl, hu⟩ := hv
    obtain ⟨cur1, hnext, hcur1⟩ := Before.nextToken_slashes (r := u ++ '\n' :: rest) h
    obtain ⟨cur', hcomment, hcur'⟩ := hcur1.comment_line hu
    rw [hnext, hcomment]
    exact ⟨rfl, hcur'⟩
  | stray hc =>
    obtain ⟨cur', hnext, -⟩ := h.next_cons
    simp only [Cursor.nextToken, hnext, hc, h.location_eq]
    exact ⟨rfl, trivial⟩
  | @strayInComment _ c rest hv hne hc =>
    obtain ⟨u, rfl, hu⟩ := hv
    obtain ⟨cur1, hnext, hcur1⟩ := Before.nextToken_slashes (r := u ++ c :: rest) h
    have hcomment : (cur1.comment keepNewline loc).1 = _ := hcur1.comment_stray hu hne hc
    refine ⟨?_, trivial⟩
    rw [hnext, Outcome.mapAnswer, hcomment]
    rfl
  | @strayInString b _ c rest hb hne hc =>
    have hquote : cur.Before loc (quote :: (b ++ c :: rest)) := h
    obtain ⟨cur1, hnext, hcur1⟩ := hquote.nextToken_cons (k := .quote) rfl
    have hliteral : (cur1.literal loc).1 = _ := hcur1.literal_stray hb hne hc
    refine ⟨?_, trivial⟩
    rw [hnext, Outcome.mapAnswer, lexeme, hliteral]
    rfl
  | unterminated hb =>
    obtain ⟨cur1, hnext, hcur1⟩ := h.nextToken_cons (k := .quote) rfl
    obtain ⟨cur', hliteral, -⟩ := hcur1.literal_unterminated hb loc
    refine ⟨?_, trivial⟩
    rw [hnext, lexeme, hliteral]
    rfl

end Cursor

end RpalLex
