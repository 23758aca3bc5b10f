import RpalLex.Token

/-! # The lexical grammar of RPAL

  What the lexer does step by step is stated here without steps.

  * Every kind of token has a *language*, the set of its values (§2), and
    says which characters would continue it.
  * A *piece* is a stretch of a program that belongs to one token: the token
    as it is written and, after a comment, the line feed that was dropped.
  * `FrontOf` says what stands at the front of a text (§3): nothing, a piece
    that is as long as it can be, a character that cannot stand there, or a
    string literal that the text does not close.

  Main statements: `openBody_false_iff` (the bodies of string literals are the
  sequences of escapes, plain characters and backslashes that stand for
  themselves) and `exists_frontOf` (something stands at the front of every
  text). -/

namespace RpalLex

open Alphabet

/-! ## §1. Bodies of string literals -/

/-- A string literal that is open goes on with a character: is an escape pending after it?
    `pending` says whether one was pending before.  `none` if the literal does not go on. -/
def nextPending (pending : Bool) (c : Char) : Option Bool :=
  if pending && isEscapable c then some false
  else if isStringBody c then some (c == '\\') else none

/-- The text leaves a string literal open that starts right before it; an escape may be pending
    at its end. -/
def OpenBody (b : List Char) (pending : Bool) : Prop :=
  b.foldlM nextPending false = some pending

/-- The text is made of units: an escape, a backslash that is not last and begins no escape, or
    any other character of the body of a string. -/
inductive LiteralBody : List Char → Prop where
  | nil : LiteralBody []
  | escape {c : Char} {b : List Char} : isEscapable c = true → LiteralBody b →
      LiteralBody ('\\' :: c :: b)
  | backslash {c : Char} {b : List Char} : isEscapable c = false → LiteralBody (c :: b) →
      LiteralBody ('\\' :: c :: b)
  | plain {c : Char} {b : List Char} : isStringBody c = true → c ≠ '\\' → LiteralBody b →
      LiteralBody (c :: b)

theorem isStringBody_quote : isStringBody quote = false := by decide

theorem isStringBody_backslash : isStringBody '\\' = true := by decide

theorem isEscapable_quote : isEscapable quote = true := by decide

/-- Every escapable character but the quote may stand in a string by itself. -/
theorem isStringBody_of_isEscapable {c : Char} (h : isEscapable c = true) (hq : c ≠ quote) :
    isStringBody c = true := by
  simp only [isEscapable, escapables, List.contains_cons, List.contains_nil, Bool.or_false,
    Bool.or_eq_true, beq_iff_eq] at h
  rcases h with rfl | rfl | rfl | rfl
  · decide
  · decide
  · decide
  · exact absurd rfl hq

theorem nextPending_eq_none_iff {pending : Bool} {c : Char} :
    nextPending pending c = none ↔
      c = quote ∧ pending = false ∨ c ≠ quote ∧ isStringBody c = false := by
  unfold nextPending
  by_cases hq : c = quote
  · subst hq
    cases pending <;> simp [isEscapable_quote, isStringBody_quote]
  · by_cases he : isEscapable c = true
    · have hbody := isStringBody_of_isEscapable he hq
      cases pending <;> simp [hq, he, hbody]
    · cases hb : isStringBody c <;> simp [hq, he]

theorem nextPending_false {c : Char} (h : isStringBody c = true) :
    nextPending false c = some (c == '\\') := by
  simp [nextPending, h]

/-- A pending escape is nothing else than a backslash in front. -/
theorem foldlM_nextPending_true (b : List Char) :
    b.foldlM nextPending true = ('\\' :: b).foldlM nextPending false := by
  rw [List.foldlM_cons, nextPending_false isStringBody_backslash]
  rfl

theorem LiteralBody.openBody {b : List Char} (h : LiteralBody b) : OpenBody b false := by
  unfold OpenBody
  induction h with
  | nil => rfl
  | @escape c b hc _ ih =>
    rw [← foldlM_nextPending_true, List.foldlM_cons]
    simpa [nextPending, hc] using ih
  | @backslash c b hc _ ih =>
    rw [← foldlM_nextPending_true, List.foldlM_cons]
    -- A character that completes no escape is read as if none were pending.
    have hsame : nextPending true c = nextPending false c := by simp [nextPending, hc]
    rw [hsame, ← List.foldlM_cons]
    exact ih
  | @plain c b hc hne _ ih =>
    rw [List.foldlM_cons, nextPending_false hc, beq_false_of_ne hne]
    exact ih

/-- The induction runs over the text with the escape that may be pending put in front of it. -/
theorem literalBody_of_foldlM {b : List Char} {pending : Bool}
    (h : b.foldlM nextPending pending = some false) :
    LiteralBody (if pending then '\\' :: b else b) := by
  induction b generalizing pending with
  | nil =>
    have hp : pending = false := by simpa using h
    subst hp
    exact .nil
  | cons c b ih =>
    rw [List.foldlM_cons] at h
    obtain ⟨pending', hc, hb⟩ := Option.bind_eq_some_iff.1 h
    have hrest := ih hb
    unfold nextPending at hc
    split at hc
    · next hesc =>
      obtain ⟨rfl, hesc⟩ := Bool.and_eq_true_iff.1 hesc
      obtain rfl : false = pending' := by simpa using hc
      exact .escape hesc hrest
    · next hesc =>
      split at hc
      · next hbody =>
        obtain rfl : (c == '\\') = pending' := by simpa using hc
        -- Without a pending escape the character begins a unit of its own.
        have hunit : LiteralBody (c :: b) := by
          by_cases hback : c = '\\'
          · simpa [hback] using hrest
          · exact .plain hbody hback (by simpa [hback] using hrest)
        cases pending with
        | false => exact hunit
        | true => exact .backslash (by simpa using hesc) hunit
      · cases hc

theorem openBody_false_iff {b : List Char} : OpenBody b false ↔ LiteralBody b :=
  ⟨fun h => by simpa using literalBody_of_foldlM h, LiteralBody.openBody⟩

/-- A text after the opening quote leaves the literal open, or there is a first character that the
    literal does not go on with. -/
theorem openBody_or_stops (r : List Char) :
    (∃ pending, OpenBody r pending) ∨
      ∃ b c rest pending,
        r = b ++ c :: rest ∧ OpenBody b pending ∧ nextPending pending c = none := by
  -- The induction needs any state of the literal at its start.
  unfold OpenBody
  generalize false = start
  induction r generalizing start with
  | nil => exact .inl ⟨start, rfl⟩
  | cons c r ih =>
    cases hc : nextPending start c with
    | none => exact .inr ⟨[], c, r, start, rfl, rfl, hc⟩
    | some start' =>
      rcases ih start' with ⟨pending, hr⟩ | ⟨b, d, rest, pending, rfl, hb, hd⟩
      · exact .inl ⟨pending, by rw [List.foldlM_cons, hc]; exact hr⟩
      · exact .inr ⟨c :: b, d, rest, pending, rfl, by rw [List.foldlM_cons, hc]; exact hb, hd⟩

/-! ## §2. The languages of the kinds -/

/-- One or more characters of a set. -/
def Row (accept : Char → Bool) (v : List Char) : Prop := v ≠ [] ∧ ∀ c ∈ v, accept c = true

/-- The text is empty, or it begins with a character outside the set. -/
def Stops (accept : Char → Bool) (r : List Char) : Prop := ∀ c ∈ r.head?, accept c = false

/-- A letter, then letters, digits and underscores. -/
def IsWord (v : List Char) : Prop :=
  ∃ first others, v = first :: others ∧ isLetter first = true ∧
    ∀ c ∈ others, isIdentifierChar c = true

namespace Token.Kind

/-- The values of the tokens of a kind. -/
def Language : Kind → List Char → Prop
  | identifier, v => IsWord v ∧ isReserved (String.ofList v) = false
  | reserved, v => isReserved (String.ofList v) = true
  | integer, v => Row isDigit v
  | string, v => LiteralBody v
  | operator, v => Row isOperatorSymbol v ∧ ¬ ['/', '/'] <+: v
  | whitespace, v => Row isBlank v
  | comment, v => ∃ body, v = '/' :: '/' :: body ∧ ∀ c ∈ body, isCommentBody c = true
  | mark, v => ∃ c, v = [c] ∧ ofMark? c = some mark

/-- Would the character belong to a token of the kind that comes right before it? -/
def continuedBy : Kind → Char → Bool
  | identifier | reserved => isIdentifierChar
  | integer => isDigit
  | operator => isOperatorSymbol
  | whitespace => isBlank
  | comment => (· != '\n')
  | _ => fun _ => false

/-- A value as it stands in a program. -/
def written : Kind → List Char → List Char
  | string, v => quote :: v ++ [quote]
  | _, v => v

theorem written_of_ne_string {k : Kind} (h : k ≠ string) (v : List Char) : k.written v = v := by
  cases k with
  | string => exact absurd rfl h
  | _ => rfl

end Token.Kind

theorem isWord_of_isReserved {v : List Char} (h : Token.isReserved (String.ofList v) = true) :
    IsWord v := by
  have table : (Token.reservedWords.all fun w =>
      w.toList.head?.any isLetter && w.toList.tail.all isIdentifierChar) = true := by decide +kernel
  have hword := List.all_eq_true.1 table _ (List.contains_iff_mem.1 h)
  rw [String.toList_ofList] at hword
  obtain ⟨hfirst, hothers⟩ := Bool.and_eq_true_iff.1 hword
  cases v with
  | nil => cases hfirst
  | cons first others => exact ⟨first, others, rfl, hfirst, List.all_eq_true.1 hothers⟩

/-- A row of characters of a set, as long as it can be, is split off every text. -/
theorem exists_span (accept : Char → Bool) (r : List Char) :
    ∃ u rest, r = u ++ rest ∧ (∀ c ∈ u, accept c = true) ∧ Stops accept rest := by
  refine ⟨r.takeWhile accept, r.dropWhile accept, List.takeWhile_append_dropWhile.symm,
    List.all_eq_true.1 List.all_takeWhile, fun c hc => ?_⟩
  have hnot := List.head?_dropWhile_not accept r
  rw [Option.mem_def.1 hc] at hnot
  simpa using hnot

/-! ## §3. The front of a text -/

/-- A stretch of a program that belongs to one token. -/
structure Piece where
  kind : Token.Kind
  value : List Char
  /-- The line feed that was dropped after a comment. -/
  dropped : List Char := []
deriving DecidableEq, Repr

namespace Piece

/-- The token as it is written. -/
def text (p : Piece) : List Char := p.kind.written p.value

/-- All that belongs to the piece. -/
def source (p : Piece) : List Char := p.text ++ p.dropped

/-- The token of a piece that stands at a location. -/
def token (p : Piece) (loc : Location) : Token := ⟨p.kind, String.ofList p.value, loc⟩

theorem source_mk (k : Token.Kind) (v dropped : List Char) :
    source ⟨k, v, dropped⟩ = k.written v ++ dropped := rfl

@[simp] theorem text_token (p : Piece) (loc : Location) :
    (p.token loc).text.toList = p.text := by
  obtain ⟨kind, value, dropped⟩ := p
  cases kind <;> simp [token, text, Token.text, Token.Kind.written]

end Piece

/-- What may stand at the front of a text. -/
inductive Front where
  | ended
  | piece (p : Piece) (rest : List Char)
  /-- The character `c`, after the characters `before`, cannot stand in its context. -/
  | invalid (before : List Char) (c : Char) (context : Option String)
  | unterminated

/-- What stands at the front of a text.  A comment keeps its line feed for the next piece, or has
    it dropped. -/
inductive FrontOf (keepNewline : Bool) : List Char → Front → Prop where
  | ended : FrontOf keepNewline [] .ended
  | piece {k : Token.Kind} {v rest : List Char} (hv : k.Language v)
      (hstops : Stops k.continuedBy rest)
      (hkept : k = .comment → keepNewline = true ∨ rest = []) :
      FrontOf keepNewline (k.written v ++ rest) (.piece ⟨k, v, []⟩ rest)
  | commentLine {v rest : List Char} (hdropped : keepNewline = false)
      (hv : Token.Kind.comment.Language v) :
      FrontOf keepNewline (v ++ '\n' :: rest) (.piece ⟨.comment, v, ['\n']⟩ rest)
  | stray {c : Char} {rest : List Char} (hc : StartClass.ofChar? c = none) :
      FrontOf keepNewline (c :: rest) (.invalid [] c none)
  | strayInComment {v : List Char} {c : Char} {rest : List Char}
      (hv : Token.Kind.comment.Language v) (hne : c ≠ '\n') (hc : isCommentBody c = false) :
      FrontOf keepNewline (v ++ c :: rest) (.invalid v c (some "comment"))
  | strayInString {b : List Char} {pending : Bool} {c : Char} {rest : List Char}
      (hb : OpenBody b pending) (hne : c ≠ quote) (hc : isStringBody c = false) :
      FrontOf keepNewline (quote :: b ++ c :: rest)
        (.invalid (quote :: b) c (some "string literal"))
  | unterminated {b : List Char} {pending : Bool} (hb : OpenBody b pending) :
      FrontOf keepNewline (quote :: b) .unterminated

/-! ## §4. Something stands at the front of every text -/

theorem row_cons {accept : Char → Bool} {c : Char} {u : List Char} (hc : accept c = true)
    (hu : ∀ d ∈ u, accept d = true) : Row accept (c :: u) := by
  refine ⟨by simp, fun d hd => ?_⟩
  rcases List.mem_cons.1 hd with rfl | hd
  · exact hc
  · exact hu d hd

theorem IsWord.append {v u : List Char} (hv : IsWord v) (hu : ∀ c ∈ u, isIdentifierChar c = true) :
    IsWord (v ++ u) := by
  obtain ⟨first, others, rfl, hfirst, hothers⟩ := hv
  exact ⟨first, others ++ u, rfl, hfirst, List.forall_mem_append.2 ⟨hothers, hu⟩⟩

/-- A word is a piece, of one kind or of the other. -/
theorem frontOf_word (keepNewline : Bool) {v rest : List Char} (hv : IsWord v)
    (hrest : Stops isIdentifierChar rest) :
    ∃ k, k ≠ .string ∧ FrontOf keepNewline (v ++ rest) (.piece ⟨k, v, []⟩ rest) := by
  cases hres : Token.isReserved (String.ofList v) with
  | true => exact ⟨.reserved, by simp, .piece (k := .reserved) (v := v) hres hrest (by simp)⟩
  | false =>
    exact ⟨.identifier, by simp, .piece (k := .identifier) (v := v) ⟨hv, hres⟩ hrest (by simp)⟩

/-- A comment goes on as far as it can.  Then comes the end of its line or of the text, or a
    character that cannot stand in it. -/
theorem frontOf_comment (keepNewline : Bool) {v : List Char} (hv : Token.Kind.comment.Language v)
    (r : List Char) :
    (∃ u dropped rest, FrontOf keepNewline (v ++ r) (.piece ⟨.comment, v ++ u, dropped⟩ rest)) ∨
      ∃ before c, FrontOf keepNewline (v ++ r) (.invalid before c (some "comment")) := by
  obtain ⟨u, rest, rfl, hu, hrest⟩ := exists_span isCommentBody r
  have hvu : Token.Kind.comment.Language (v ++ u) := by
    obtain ⟨body, rfl, hbody⟩ := hv
    exact ⟨body ++ u, rfl, List.forall_mem_append.2 ⟨hbody, hu⟩⟩
  rw [← List.append_assoc]
  cases rest with
  | nil =>
    left
    exact ⟨u, [], [], .piece (k := .comment) hvu (by simp [Stops]) fun _ => .inr rfl⟩
  | cons d rest =>
    by_cases hd : d = '\n'
    · subst hd
      left
      cases keepNewline with
      | true =>
        exact ⟨u, [], '\n' :: rest, .piece (k := .comment) hvu
          (by simp [Stops, Token.Kind.continuedBy]) fun _ => .inl rfl⟩
      | false => exact ⟨u, ['\n'], rest, .commentLine rfl hvu⟩
    · right
      exact ⟨v ++ u, d, .strayInComment hvu hd (hrest d rfl)⟩

theorem exists_frontOf_operator (keepNewline : Bool) {c : Char} (hc : isOperatorSymbol c = true)
    (r : List Char) : ∃ o, FrontOf keepNewline (c :: r) o := by
  by_cases hslashes : ['/', '/'] <+: c :: r
  · obtain ⟨r', hr'⟩ := hslashes
    rw [← hr']
    have hv : Token.Kind.comment.Language ['/', '/'] := ⟨[], rfl, by simp⟩
    rcases frontOf_comment keepNewline hv r' with ⟨u, dropped, rest, hp⟩ | ⟨before, c, ho⟩
    · exact ⟨_, hp⟩
    · exact ⟨_, ho⟩
  · obtain ⟨u, rest, rfl, hu, hrest⟩ := exists_span isOperatorSymbol r
    -- Two slashes at the beginning of the operator would be two at the beginning of the text.
    have hnot : ¬ ['/', '/'] <+: c :: u := fun h => hslashes (h.trans (List.prefix_append _ rest))
    exact ⟨_, .piece (k := .operator) (v := c :: u) ⟨row_cons hc hu, hnot⟩ hrest (by simp)⟩

theorem exists_frontOf_string (keepNewline : Bool) (r : List Char) :
    ∃ o, FrontOf keepNewline (quote :: r) o := by
  rcases openBody_or_stops r with ⟨pending, hr⟩ | ⟨b, c, rest, pending, rfl, hb, hc⟩
  · exact ⟨_, .unterminated hr⟩
  · -- Only a quote that is not escaped ends the literal; anything else cannot stand there.
    rcases nextPending_eq_none_iff.1 hc with ⟨rfl, rfl⟩ | ⟨hne, hbody⟩
    · have hpiece : FrontOf keepNewline (Token.Kind.string.written b ++ rest)
          (.piece ⟨.string, b, []⟩ rest) :=
        .piece (openBody_false_iff.1 hb) (fun _ _ => rfl) (by simp)
      exact ⟨_, by simpa [Token.Kind.written] using hpiece⟩
    · exact ⟨_, .strayInString hb hne hbody⟩

theorem frontOf_mark (keepNewline : Bool) {c : Char} {k : Token.Kind}
    (h : Token.Kind.ofMark? c = some k) (r : List Char) :
    FrontOf keepNewline (c :: r) (.piece ⟨k, [c], []⟩ r) := by
  unfold Token.Kind.ofMark? at h
  split at h
  · cases h; exact .piece (k := .leftParen) ⟨_, rfl, rfl⟩ (fun _ _ => rfl) (by simp)
  · cases h; exact .piece (k := .rightParen) ⟨_, rfl, rfl⟩ (fun _ _ => rfl) (by simp)
  · cases h; exact .piece (k := .semicolon) ⟨_, rfl, rfl⟩ (fun _ _ => rfl) (by simp)
  · cases h; exact .piece (k := .comma) ⟨_, rfl, rfl⟩ (fun _ _ => rfl) (by simp)
  · cases h

theorem exists_frontOf (keepNewline : Bool) (r : List Char) : ∃ o, FrontOf keepNewline r o := by
  cases r with
  | nil => exact ⟨_, .ended⟩
  | cons c r =>
    cases hk : StartClass.ofChar? c with
    | none => exact ⟨_, .stray hk⟩
    | some k =>
      have hc := StartClass.contains_of_ofChar? hk
      cases k with
      | letter =>
        obtain ⟨u, rest, rfl, hu, hrest⟩ := exists_span isIdentifierChar r
        obtain ⟨k, -, hp⟩ := frontOf_word keepNewline ⟨c, u, rfl, hc, hu⟩ hrest
        exact ⟨_, hp⟩
      | digit =>
        obtain ⟨u, rest, rfl, hu, hrest⟩ := exists_span isDigit r
        exact ⟨_, .piece (k := .integer) (v := c :: u) (row_cons hc hu) hrest (by simp)⟩
      | operator => exact exists_frontOf_operator keepNewline hc r
      | quote =>
        obtain rfl : c = quote := by simpa [StartClass.contains] using hc
        exact exists_frontOf_string keepNewline r
      | space =>
        obtain ⟨u, rest, rfl, hu, hrest⟩ := exists_span isBlank r
        exact ⟨_, .piece (k := .whitespace) (v := c :: u) (row_cons hc hu) hrest (by simp)⟩
      | punctuation =>
        have hsome : (Token.Kind.ofMark? c).isSome = true := by
          rw [Token.Kind.isSome_ofMark?]; exact hc
        obtain ⟨k, hmark⟩ := Option.isSome_iff_exists.1 hsome
        exact ⟨_, frontOf_mark keepNewline hmark r⟩

/-! ## §5. Pieces and what follows them

  A piece ends where it does because of the one character that follows it,
  and an error is an error because of the character it names.  Nothing that
  comes later matters. -/

theorem Token.Kind.Language.written_ne_nil {k : Token.Kind} {v : List Char} (h : k.Language v) :
    k.written v ≠ [] := by
  cases k with
  | identifier => obtain ⟨⟨first, others, rfl, -⟩, -⟩ := h; simp [written]
  | reserved =>
    obtain ⟨first, others, rfl, -⟩ := isWord_of_isReserved h
    simp [written]
  | string => simp [written]
  | comment => obtain ⟨body, rfl, -⟩ := h; simp [written]
  | integer => exact h.1
  | whitespace => exact h.1
  | operator => exact h.1.1
  | leftParen => obtain ⟨c, rfl, -⟩ := h; simp [written]
  | rightParen => obtain ⟨c, rfl, -⟩ := h; simp [written]
  | semicolon => obtain ⟨c, rfl, -⟩ := h; simp [written]
  | comma => obtain ⟨c, rfl, -⟩ := h; simp [written]

namespace FrontOf

variable {keepNewline : Bool} {r rest rest' : List Char} {p : Piece}

theorem text_ne_nil (h : FrontOf keepNewline r (.piece p rest)) : p.text ≠ [] := by
  cases h with
  | piece hv => exact hv.written_ne_nil
  | commentLine _ hv => exact hv.written_ne_nil

theorem eq_source_append (h : FrontOf keepNewline r (.piece p rest)) : r = p.source ++ rest := by
  cases h with
  | piece => simp [Piece.source, Piece.text]
  | commentLine => simp [Piece.source, Piece.text, Token.Kind.written]

/-- A piece takes at least one character. -/
theorem length_lt (h : FrontOf keepNewline r (.piece p rest)) : rest.length < r.length := by
  have hpos := List.length_pos_iff.2 h.text_ne_nil
  rw [h.eq_source_append, List.length_append, Piece.source, List.length_append]
  omega

/-- Only the end stands at the front of nothing. -/
theorem eq_ended {o : Front} (h : FrontOf keepNewline [] o) : o = .ended := by
  generalize hr : ([] : List Char) = r at h
  cases h with
  | ended => rfl
  | piece hv => exact absurd (List.append_eq_nil_iff.1 hr.symm).1 hv.written_ne_nil
  | commentLine => simp at hr
  | stray => cases hr
  | strayInComment => simp at hr
  | strayInString => cases hr
  | unterminated => cases hr

theorem ne_nil {o : Front} (h : FrontOf keepNewline r o) (ho : o ≠ .ended) : r ≠ [] := by
  rintro rfl
  exact ho h.eq_ended

/-- A line feed was dropped exactly after a comment that something follows. -/
theorem dropped_eq (h : FrontOf keepNewline r (.piece p rest)) :
    p.dropped = if keepNewline = false ∧ p.kind = .comment ∧ p.dropped ++ rest ≠ [] then ['\n']
      else [] := by
  cases h with
  | piece _ _ hkept =>
    rw [if_neg]
    rintro ⟨hdrop, hk, hrest⟩
    rcases hkept hk with hkeep | rfl
    · rw [hdrop] at hkeep; cases hkeep
    · exact hrest rfl
  | commentLine hdrop => simp [hdrop]

/-- The same piece stands in front of another rest that begins with the same character. -/
theorem congr_rest (h : FrontOf keepNewline r (.piece p rest)) (hhead : rest.head? = rest'.head?) :
    FrontOf keepNewline (p.source ++ rest') (.piece p rest') := by
  cases h with
  | @piece k v _ hv hstops hkept =>
    -- A comment that ends with the text does so in front of the other rest too.
    have hnil : rest = [] → rest' = [] := by
      rintro rfl
      exact List.head?_eq_none_iff.1 hhead.symm
    have hpiece : FrontOf keepNewline (k.written v ++ rest') (.piece ⟨k, v, []⟩ rest') :=
      .piece hv (by rwa [Stops, ← hhead]) (fun hk => (hkept hk).imp_right hnil)
    simpa [Piece.source, Piece.text] using hpiece
  | @commentLine v _ hdrop hv =>
    have hpiece : FrontOf keepNewline (v ++ '\n' :: rest') (.piece ⟨.comment, v, ['\n']⟩ rest') :=
      .commentLine hdrop hv
    simpa [Piece.source, Piece.text, Token.Kind.written] using hpiece

variable {before : List Char} {c : Char} {context : Option String}

theorem eq_append_of_invalid (h : FrontOf keepNewline r (.invalid before c context)) :
    ∃ rest, r = before ++ c :: rest := by
  cases h with
  | @stray _ rest => exact ⟨rest, rfl⟩
  | @strayInComment _ _ rest => exact ⟨rest, rfl⟩
  | @strayInString _ _ _ rest => exact ⟨rest, rfl⟩

/-- An invalid character stays invalid whatever comes behind it. -/
theorem congr_invalid (h : FrontOf keepNewline r (.invalid before c context)) (q : List Char) :
    FrontOf keepNewline (before ++ c :: q) (.invalid before c context) := by
  cases h with
  | stray hc => exact .stray hc
  | strayInComment hv hne hc => exact .strayInComment hv hne hc
  | strayInString hb hne hc => exact .strayInString hb hne hc

/-- A literal that a text does not close begins with a quote and stays open to the end. -/
theorem quote_of_unterminated (h : FrontOf keepNewline r .unterminated) :
    ∃ b pending, r = quote :: b ∧ OpenBody b pending := by
  cases h with
  | unterminated hb => exact ⟨_, _, rfl, hb⟩

/-- A few characters would close it. -/
theorem exists_closing (h : FrontOf keepNewline r .unterminated) :
    ∃ q p, FrontOf keepNewline (r ++ q) (.piece p []) := by
  obtain ⟨b, pending, rfl, hb⟩ := h.quote_of_unterminated
  -- A pending escape takes the first of two quotes.
  obtain ⟨b', q, hbq, hclosed⟩ : ∃ b' q, b ++ q = b' ++ [quote] ∧ OpenBody b' false := by
    cases pending with
    | false => exact ⟨b, [quote], rfl, hb⟩
    | true =>
      refine ⟨b ++ [quote], [quote, quote], by simp, ?_⟩
      unfold OpenBody at hb ⊢
      rw [List.foldlM_append, hb]
      rfl
  have hpiece : FrontOf keepNewline (Token.Kind.string.written b' ++ [])
      (.piece ⟨.string, b', []⟩ []) :=
    .piece (openBody_false_iff.1 hclosed) (fun _ _ => rfl) (by simp)
  refine ⟨q, ⟨.string, b', []⟩, ?_⟩
  rw [List.cons_append, hbq]
  simpa [Token.Kind.written] using hpiece

end FrontOf

end RpalLex
