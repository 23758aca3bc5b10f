import RpalLex.Proofs.Iteration

/-! # Only the last token can change

  A token ends where it does because of the character behind it.  The last
  token of a text has none behind it, so more text may change it: a word
  grows, and may become reserved or cease to be; blanks, digits and operator
  symbols join their row; a slash before a slash begins a comment; a comment
  goes on until its line ends, or until a character that cannot stand in it.
  In all of this the token keeps the text it had, and begins where it did.

  All tokens in front of the last one stay as they are.  If the text ends with
  an error, what the error is about stands behind the last token, and every
  token stays.

  Main statements: `FrontOf.goes_on` (what becomes of the last piece of a
  text) and `exists_finishes_append`. -/

namespace RpalLex

open Alphabet

variable {keepNewline : Bool} {r rest v : List Char} {p : Piece} {ps : List Piece}

/-! ## §1. How a piece goes on -/

/-- The piece is a comment, or it is one slash and the text that follows it begins with another. -/
def Piece.BeginsComment (p : Piece) (q : List Char) : Prop :=
  p.kind = .comment ∨ p.kind = .operator ∧ p.value = ['/'] ∧ q.head? = some '/'

/-- A text begins with a piece that has the text of `p` at its front, or with a comment that has
    an invalid character, and then `p` is where the comment begins; `q` is what follows `p`. -/
def GoesOn (keepNewline : Bool) (p : Piece) (q r : List Char) : Prop :=
  (∃ p' rest, FrontOf keepNewline r (.piece p' rest) ∧ p.text <+: p'.text) ∨
    (∃ before c, FrontOf keepNewline r (.invalid before c (some "comment"))) ∧ p.BeginsComment q

theorem Row.append {accept : Char → Bool} {u : List Char} (hv : Row accept v)
    (hu : ∀ c ∈ u, accept c = true) : Row accept (v ++ u) :=
  ⟨List.append_ne_nil_of_left_ne_nil hv.1 u, List.forall_mem_append.2 ⟨hv.2, hu⟩⟩

/-- A row takes in the characters of its set that come next. -/
theorem goesOn_row {k : Token.Kind} (hstring : k ≠ .string) (hcomment : k ≠ .comment)
    {q : List Char}
    (hlanguage : ∀ u, u <+: q → (∀ c ∈ u, k.continuedBy c = true) → k.Language (v ++ u)) :
    GoesOn keepNewline ⟨k, v, []⟩ q (v ++ q) := by
  obtain ⟨u, rest, rfl, hu, hrest⟩ := exists_span k.continuedBy q
  have hvu := hlanguage u (List.prefix_append u rest) hu
  have hp : FrontOf keepNewline (k.written (v ++ u) ++ rest) (.piece ⟨k, v ++ u, []⟩ rest) :=
    .piece hvu hrest fun hk => absurd hk hcomment
  rw [Token.Kind.written_of_ne_string hstring, List.append_assoc] at hp
  left
  refine ⟨_, _, hp, ?_⟩
  rw [Piece.text, Piece.text, Token.Kind.written_of_ne_string hstring,
    Token.Kind.written_of_ne_string hstring]
  exact List.prefix_append v u

/-- A word may be of the other kind when it has grown. -/
theorem goesOn_word {k : Token.Kind} (hstring : k ≠ .string) (hv : IsWord v) (q : List Char) :
    GoesOn keepNewline ⟨k, v, []⟩ q (v ++ q) := by
  obtain ⟨u, rest, rfl, hu, hrest⟩ := exists_span isIdentifierChar q
  obtain ⟨k', hstring', hp⟩ := frontOf_word keepNewline (hv.append hu) hrest
  rw [List.append_assoc] at hp
  left
  refine ⟨_, _, hp, ?_⟩
  rw [Piece.text, Piece.text, Token.Kind.written_of_ne_string hstring,
    Token.Kind.written_of_ne_string hstring']
  exact List.prefix_append v u

/-- A comment goes on from where the piece ends. -/
theorem goesOn_comment {w q q' : List Char} {k : Token.Kind} (hstring : k ≠ .string)
    (hw : Token.Kind.comment.Language w) (hvw : v <+: w) (hq : v ++ q = w ++ q')
    (hbegins : Piece.BeginsComment ⟨k, v, []⟩ q) : GoesOn keepNewline ⟨k, v, []⟩ q (v ++ q) := by
  rw [hq]
  rcases frontOf_comment keepNewline hw q' with ⟨u, dropped, rest, hp⟩ | hinvalid
  · left
    refine ⟨_, _, hp, ?_⟩
    rw [Piece.text, Token.Kind.written_of_ne_string hstring]
    exact hvw.trans (List.prefix_append w u)
  · right
    exact ⟨hinvalid, hbegins⟩

theorem goesOn_operator (hv : Token.Kind.operator.Language v) (q : List Char) :
    GoesOn keepNewline ⟨.operator, v, []⟩ q (v ++ q) := by
  obtain ⟨hrow, hslashes⟩ := hv
  by_cases hslash : v = ['/'] ∧ q.head? = some '/'
  · obtain ⟨rfl, hq⟩ := hslash
    obtain ⟨q', rfl⟩ := List.head?_eq_some_iff.1 hq
    have hw : Token.Kind.comment.Language ['/', '/'] := ⟨[], rfl, by simp⟩
    have htext : ['/'] ++ '/' :: q' = ['/', '/'] ++ q' := rfl
    exact goesOn_comment (by simp) hw ⟨['/'], rfl⟩ htext (.inr ⟨rfl, rfl, rfl⟩)
  · refine goesOn_row (by simp) (by simp) fun u huq hu => ⟨hrow.append hu, ?_⟩
    -- Two slashes in front would be those of the operator, or one of it and one behind it.
    intro hprefix
    obtain ⟨c, v', rfl⟩ := List.exists_cons_of_ne_nil hrow.1
    cases v' with
    | nil =>
      obtain ⟨w, hw⟩ := hprefix
      obtain ⟨rfl, rfl⟩ : '/' = c ∧ '/' :: w = u := by simpa using hw
      obtain ⟨q', rfl⟩ := huq
      exact hslash ⟨rfl, rfl⟩
    | cons d v' =>
      obtain ⟨w, hw⟩ := hprefix
      obtain ⟨rfl, rfl, -⟩ : '/' = c ∧ '/' = d ∧ w = v' ++ u := by simpa using hw
      exact hslashes ⟨v', rfl⟩

theorem FrontOf.goes_on (h : FrontOf keepNewline r (.piece p [])) (q : List Char) :
    GoesOn keepNewline p q (r ++ q) := by
  -- A piece that is at its end whatever follows it.
  have hsame : ∀ {p' : Piece} {r' : List Char}, FrontOf keepNewline r' (.piece p' q) →
      GoesOn keepNewline p' q r' := by
    intro p' r' hp'
    exact .inl ⟨p', q, hp', List.prefix_refl _⟩
  cases h with
  | @commentLine v _ hdrop hv =>
    rw [List.append_assoc]
    exact hsame (.commentLine hdrop hv)
  | @piece k v _ hv _ _ =>
    rw [List.append_nil]
    cases k with
    | identifier => exact goesOn_word (by simp) hv.1 q
    | reserved => exact goesOn_word (by simp) (isWord_of_isReserved hv) q
    | integer => exact goesOn_row (by simp) (by simp) fun u _ hu => Row.append hv hu
    | whitespace => exact goesOn_row (by simp) (by simp) fun u _ hu => Row.append hv hu
    | operator => exact goesOn_operator hv q
    | comment => exact goesOn_comment (by simp) hv (List.prefix_refl v) rfl (.inl rfl)
    | string => exact hsame (.piece hv (fun _ _ => rfl) (by simp))
    | leftParen => exact hsame (.piece hv (fun _ _ => rfl) (by simp))
    | rightParen => exact hsame (.piece hv (fun _ _ => rfl) (by simp))
    | semicolon => exact hsame (.piece hv (fun _ _ => rfl) (by simp))
    | comma => exact hsame (.piece hv (fun _ _ => rfl) (by simp))

/-! ## §2. A text and more text -/

/-- A run over a text delivered the tokens `init` and then, last of all, `t`.  With `q` behind the
    text it delivers `init` and then a token that begins where `t` did and has its text in front,
    or it fails in a comment, which `t` is or begins. -/
def Regrows (q : List Char) (init : List Token) (t : Token) (ts : List Token)
    (problem : Option Problem) : Prop :=
  (∃ u others, ts = init ++ u :: others ∧ u.start = t.start ∧ t.text.toList <+: u.text.toList) ∨
    ts = init ∧
      (∃ c loc, problem = some (.lexical (.invalidCharacter c loc (some "comment")))) ∧
      (t.kind = .comment ∨ t.kind = .operator ∧ t.value = "/" ∧ q.head? = some '/')

variable {p q filename : String} {last : Piece}

/-- What stands behind the first pieces of a text does not show in their tokens. -/
theorem Cuts.exists_finishes (h : Cuts keepNewline p.toList ps rest) (filename : String) :
    ∃ ts problem, (Lexer.ofText p filename keepNewline).Finishes
      (located (.start filename) ps ++ ts) problem := by
  obtain ⟨qs, rest', o, hqs, ho, hno⟩ := exists_cuts keepNewline rest
  have hfinishes := (h.append hqs).finishes ho hno (Lexer.before_ofText p filename keepNewline)
  rw [located_append] at hfinishes
  exact ⟨_, _, hfinishes⟩

/-- Pieces that something follows stay as they are. -/
theorem Cuts.exists_finishes_extend (h : Cuts keepNewline p.toList ps rest) (hne : rest ≠ [])
    (q filename : String) :
    ∃ us problem, (Lexer.ofText (p ++ q) filename keepNewline).Finishes us problem ∧
      located (.start filename) ps <+: us := by
  have hlonger := h.extend hne q.toList
  rw [← String.toList_append] at hlonger
  obtain ⟨us, problem, hfinishes⟩ := hlonger.exists_finishes filename
  exact ⟨_, problem, hfinishes, List.prefix_append _ us⟩

/-- The last piece goes on, and its token with it. -/
theorem Cuts.exists_regrows (h : Cuts keepNewline p.toList (ps ++ [last]) [])
    (q filename : String) :
    ∃ us problem, (Lexer.ofText (p ++ q) filename keepNewline).Finishes us problem ∧
      Regrows q.toList (located (.start filename) ps)
        (last.token ((Location.start filename).after (sources ps))) us problem := by
  obtain ⟨mid, hps, hlast⟩ := h.of_concat
  have hlonger := hps.extend (hlast.ne_nil (by simp)) q.toList
  rw [← String.toList_append] at hlonger
  rcases hlast.goes_on q.toList with ⟨p', rest', hp', hprefix⟩ | ⟨⟨before, c, hc⟩, hbegins⟩
  · obtain ⟨us, problem, hus⟩ := (hlonger.append (.cons hp' (.nil rest'))).exists_finishes filename
    rw [located_concat, List.append_assoc] at hus
    refine ⟨_, problem, hus, .inl ⟨_, us, rfl, rfl, ?_⟩⟩
    rw [Piece.text_token, Piece.text_token]
    exact hprefix
  · have hus := hlonger.finishes hc (by simp) (Lexer.before_ofText (p ++ q) filename keepNewline)
    refine ⟨_, _, hus, .inr ⟨rfl, ⟨c, _, rfl⟩, hbegins.imp_right ?_⟩⟩
    rintro ⟨hk, hvalue, hq⟩
    refine ⟨hk, ?_, hq⟩
    rw [Piece.token, hvalue]

/-- Let more text follow a text.  If the run over the text ended with a problem, its tokens are
    the first ones of the longer run.  If it ended with the text, all its tokens but the last are,
    and the last one goes on. -/
theorem exists_finishes_append (p q filename : String) (keepNewline : Bool) :
    ∃ ts problem us problem', (Lexer.ofText p filename keepNewline).Finishes ts problem ∧
      (Lexer.ofText (p ++ q) filename keepNewline).Finishes us problem' ∧
      (problem ≠ none → ts <+: us) ∧
      (problem = none → ∀ init t, ts = init ++ [t] → Regrows q.toList init t us problem') := by
  obtain ⟨ps, rest, o, hps, ho, hno⟩ := exists_cuts keepNewline p.toList
  have hfinishes := hps.finishes ho hno (Lexer.before_ofText p filename keepNewline)
  by_cases hend : o = .ended
  · subst hend
    cases ho
    rcases List.eq_nil_or_concat ps with rfl | ⟨init, last, rfl⟩
    · -- There are no tokens, so nothing is said of the longer run.
      obtain ⟨us, problem', hus⟩ := RpalLex.exists_finishes (p ++ q) filename keepNewline
      refine ⟨_, _, us, problem', hfinishes, hus, fun hne => absurd rfl hne, ?_⟩
      intro _ init t hnil
      exact absurd hnil (by simp [located])
    · rw [List.concat_eq_append] at hps hfinishes
      obtain ⟨us, problem', hus, hregrows⟩ := hps.exists_regrows q filename
      refine ⟨_, _, us, problem', hfinishes, hus, fun hne => absurd rfl hne, ?_⟩
      intro _ init' t heq
      rw [located_concat] at heq
      obtain ⟨rfl, rfl⟩ := List.append_singleton_inj.1 heq
      exact hregrows
  · have hproblem : o.problem ((Location.start filename).after (sources ps)) ≠ none := by
      cases o with
      | ended => exact absurd rfl hend
      | piece p' rest' => exact absurd rfl (hno p' rest')
      | invalid before c context => simp [Front.problem]
      | unterminated => simp [Front.problem]
    obtain ⟨us, problem', hus, hprefix⟩ := hps.exists_finishes_extend (ho.ne_nil hend) q filename
    exact ⟨_, _, us, problem', hfinishes, hus, fun _ => hprefix, fun hnone => absurd hnone hproblem⟩

end RpalLex
