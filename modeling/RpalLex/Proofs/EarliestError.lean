import Mathlib.Data.List.Basic
import Mathlib.Order.Bounds.Defs
import RpalLex.Proofs.Iteration

/-! # Errors are reported as early as possible

  A text that is no sequence of tokens may still become one if more text is
  appended: an open string literal can be closed.  An invalid character
  cannot be helped.  The lexer tells the two apart.

  * An unterminated string literal is reported exactly if the text can be
    completed.
  * An invalid character is reported exactly if it cannot.  The character is
    the first one that spoils the text: whatever stands before it can be
    completed, and whatever stands behind it does not matter (§2).

  Main statement: `tokenize_error_earliest`. -/

namespace RpalLex

variable {keepNewline : Bool} {r rest : List Char} {ps : List Piece}

/-! ## §1. Appending to a text that is cut -/

/-- The first invalid character of a text stays so, however the text goes on behind it. -/
theorem Cuts.congr_invalid {before : List Char} {c : Char} {context : Option String}
    (h : Cuts keepNewline r ps rest) (ho : FrontOf keepNewline rest (.invalid before c context))
    (q : List Char) :
    Cuts keepNewline (sources ps ++ (before ++ c :: q)) ps (before ++ c :: q) ∧
      FrontOf keepNewline (before ++ c :: q) (.invalid before c context) := by
  refine ⟨h.congr_rest ?_, ho.congr_invalid q⟩
  obtain ⟨rest', rfl⟩ := ho.eq_append_of_invalid
  simp [List.head?_append]

/-- A text that leaves a string literal open has an extension that is cut into pieces. -/
theorem Cuts.exists_closing (h : Cuts keepNewline r ps rest)
    (ho : FrontOf keepNewline rest .unterminated) :
    ∃ q qs, Cuts keepNewline (r ++ q) qs [] := by
  obtain ⟨q, p, hp⟩ := ho.exists_closing
  -- The literal follows the pieces in front of it as before.
  have hne : rest ≠ [] := by
    obtain ⟨b, pending, rfl, -⟩ := ho.quote_of_unterminated
    simp
  exact ⟨q, _, (h.extend hne q).append (.cons hp (.nil []))⟩

/-! ## §2. The three ends of a text -/

/-- Some text can be appended such that there are tokens. -/
def Completable (filename : String) (keepNewline : Bool) (text : String) : Prop :=
  ∃ q ts, tokenize (text ++ q) filename keepNewline false = .ok ts

/-- The text fails at the character `c` behind `u`, and so does every text that begins with
    these characters. -/
def SpoiledAt (filename : String) (keepNewline : Bool) (u : List Char) (c : Char)
    (context : Option String) : Prop :=
  ∀ q, tokenize (String.ofList (u ++ c :: q)) filename keepNewline false =
    .error (.lexical (.invalidCharacter c (some (.behind filename u)) context))

variable {filename : String}

theorem SpoiledAt.not_completable {u : List Char} {c : Char} {context : Option String}
    (h : SpoiledAt filename keepNewline u c context) (v : List Char) :
    ¬ Completable filename keepNewline (String.ofList (u ++ c :: v)) := by
  rintro ⟨q, ts, htokens⟩
  have hfails := h (v ++ q.toList)
  rw [← List.cons_append, ← List.append_assoc, String.ofList_append, String.ofList_toList,
    htokens] at hfails
  cases hfails

/-- Every text has tokens, or is spoiled by one of its characters, or leaves a string literal open
    and can be completed. -/
theorem tokenize_trichotomy (filename : String) (keepNewline : Bool) (text : String) :
    (∃ ts, tokenize text filename keepNewline false = .ok ts) ∨
    (∃ u c v context, text.toList = u ++ c :: v ∧ SpoiledAt filename keepNewline u c context) ∨
    ((∃ loc, tokenize text filename keepNewline false =
        .error (.lexical (.unterminatedString loc))) ∧
      Completable filename keepNewline text) := by
  rcases cuts_cases keepNewline text.toList with
    ⟨ps, hps⟩ | ⟨ps, rest, before, c, context, hps, ho⟩ | ⟨ps, rest, hps, ho⟩
  · left
    exact ⟨_, tokenize_of_cuts hps⟩
  · right; left
    obtain ⟨v, rfl⟩ := ho.eq_append_of_invalid
    refine ⟨sources ps ++ before, c, v, context, ?_, ?_⟩
    · rw [hps.eq_sources_append, List.append_assoc]
    · intro q
      obtain ⟨hcuts, hinvalid⟩ := hps.congr_invalid ho q
      rw [← List.append_assoc, ← String.toList_ofList (l := _ ++ c :: q)] at hcuts
      exact tokenize_of_invalid hcuts hinvalid
  · right; right
    refine ⟨⟨_, tokenize_of_unterminated hps ho⟩, ?_⟩
    obtain ⟨q, qs, hcuts⟩ := hps.exists_closing ho
    rw [← String.toList_ofList (l := q), ← String.toList_append] at hcuts
    exact ⟨_, _, tokenize_of_cuts hcuts⟩

/-! ## §3. The character that is reported -/

theorem SpoiledAt.tokenize_append {u v : List Char} {c : Char} {context : Option String}
    {text : String} (h : SpoiledAt filename keepNewline u c context)
    (htext : text.toList = u ++ c :: v) (q : String) :
    tokenize (text ++ q) filename keepNewline false =
      .error (.lexical (.invalidCharacter c (some (.behind filename u)) context)) := by
  rw [← h (v ++ q.toList)]
  congr 1
  rw [← String.toList_inj, String.toList_append, htext, String.toList_ofList]
  simp

/-- A text is spoiled by one of its characters only. -/
theorem SpoiledAt.prefix_unique {u u' v v' : List Char} {c c' : Char}
    {context context' : Option String} (h : SpoiledAt filename keepNewline u c context)
    (h' : SpoiledAt filename keepNewline u' c' context') (heq : u ++ c :: v = u' ++ c' :: v') :
    u = u' := by
  have hsame := h v
  rw [heq, h' v'] at hsame
  -- The errors are the same, so both characters are reported at one location.
  have hbehind : Location.behind filename u' = Location.behind filename u := by
    simp only [Except.error.injEq, Problem.lexical.injEq, LexError.invalidCharacter.injEq,
      Option.some.injEq] at hsame
    exact hsame.2.1
  have hu : u <+: u' ++ c' :: v' := ⟨c :: v, heq⟩
  rcases List.prefix_or_prefix_of_prefix hu (List.prefix_append u' _) with hle | hle
  · exact Location.eq_of_behind_eq hle hbehind.symm
  · exact (Location.eq_of_behind_eq hle hbehind).symm

/-- What stands before the character can be completed. -/
theorem SpoiledAt.completable {u w : List Char} {c : Char} {context : Option String}
    (h : SpoiledAt filename keepNewline u c context) (hw : w <+: u) :
    Completable filename keepNewline (String.ofList w) := by
  rcases tokenize_trichotomy filename keepNewline (String.ofList w) with
    ⟨ts, htokens⟩ | ⟨u', c', v', context', hsplit, h'⟩ | ⟨-, hcompletable⟩
  · exact ⟨"", ts, by rw [String.append_empty]; exact htokens⟩
  · obtain ⟨x, rfl⟩ := hw
    rw [String.toList_ofList] at hsplit
    subst hsplit
    -- A character that spoils the prefix spoils the whole, but comes before the one that does.
    have heq : (u' ++ c' :: v' ++ x) ++ c :: [] = u' ++ c' :: (v' ++ x ++ [c]) := by simp
    have hlength := congrArg List.length (h.prefix_unique h' heq)
    simp only [List.length_append, List.length_cons] at hlength
    omega
  · exact hcompletable

/-- The offset of the character is the least one up to which the text cannot be completed. -/
theorem SpoiledAt.isLeast {u v : List Char} {c : Char} {context : Option String} {text : String}
    (h : SpoiledAt filename keepNewline u c context) (htext : text.toList = u ++ c :: v) :
    IsLeast {i | ¬ Completable filename keepNewline (String.ofList (text.toList.take (i + 1)))}
      u.length := by
  constructor
  · show ¬ Completable filename keepNewline (String.ofList (text.toList.take (u.length + 1)))
    have htake : text.toList.take (u.length + 1) = u ++ c :: [] := by
      rw [htext, List.take_length_add_append]
      rfl
    rw [htake]
    exact h.not_completable []
  · intro j hj
    by_contra hlt
    have htake : text.toList.take (j + 1) = u.take (j + 1) := by
      rw [htext, List.take_append_of_le_length (by omega)]
    have hcompletable := h.completable (List.take_prefix (j + 1) u)
    rw [← htake] at hcompletable
    exact hj hcompletable

/-! ## §4. Both errors -/

theorem not_completable_iff {text : String} :
    ¬ Completable filename keepNewline text ↔
      ∀ q, ∃ p, tokenize (text ++ q) filename keepNewline false = .error p := by
  unfold Completable
  push Not
  constructor
  · intro h q
    cases hq : tokenize (text ++ q) filename keepNewline false with
    | ok ts => exact absurd hq (h q ts)
    | error p => exact ⟨p, rfl⟩
  · intro h q ts hq
    obtain ⟨p, hp⟩ := h q
    rw [hq] at hp
    cases hp

/-- An invalid character is reported exactly if the text is spoiled. -/
theorem exists_spoiledAt {text : String} {c : Char} {loc : Option Location}
    {context : Option String} (h : tokenize text filename keepNewline false =
      .error (.lexical (.invalidCharacter c loc context))) :
    ∃ u v, text.toList = u ++ c :: v ∧ loc = some (.behind filename u) ∧
      SpoiledAt filename keepNewline u c context := by
  rcases tokenize_trichotomy filename keepNewline text with
    ⟨ts, htokens⟩ | ⟨u, c', v, context', htext, hspoiled⟩ | ⟨⟨loc, hopen⟩, -⟩
  · rw [htokens] at h
    cases h
  · have hself := hspoiled v
    rw [← htext, String.ofList_toList, h] at hself
    cases hself
    exact ⟨u, v, htext, rfl, hspoiled⟩
  · rw [hopen] at h
    cases h

/-- An error is of one of the two kinds, and they differ in whether the text can be completed. -/
theorem error_cases {text : String} {p : Problem}
    (h : tokenize text filename keepNewline false = .error p) :
    (∃ c loc context, p = .lexical (.invalidCharacter c loc context)) ∧
        ¬ Completable filename keepNewline text ∨
      (∃ loc, p = .lexical (.unterminatedString loc)) ∧ Completable filename keepNewline text := by
  rcases tokenize_trichotomy filename keepNewline text with
    ⟨ts, htokens⟩ | ⟨u, c, v, context, htext, hspoiled⟩ | ⟨⟨loc, hopen⟩, hcompletable⟩
  · rw [htokens] at h
    cases h
  · have hnot := hspoiled.not_completable v
    have hself := hspoiled v
    rw [← htext, String.ofList_toList] at hself hnot
    rw [h] at hself
    cases hself
    left
    exact ⟨⟨_, _, _, rfl⟩, hnot⟩
  · rw [h] at hopen
    cases hopen
    right
    exact ⟨⟨_, rfl⟩, hcompletable⟩

/-- An invalid character is reported if and only if no continuation of the text has tokens.  It is
    the first character that leaves none, its location is that of its offset, and every
    continuation is answered in the same way.  An unterminated string literal is reported if and
    only if the text has no tokens but some continuation has.  There are no other errors. -/
theorem tokenize_error_earliest (text filename : String) (keepNewline : Bool) :
    ((∃ c loc context, tokenize text filename keepNewline false =
        .error (.lexical (.invalidCharacter c loc context))) ↔
      ∀ q, ∃ p, tokenize (text ++ q) filename keepNewline false = .error p) ∧
    (∀ c loc context, tokenize text filename keepNewline false =
        .error (.lexical (.invalidCharacter c loc context)) →
      ∃ i, IsLeast {i | ¬ Completable filename keepNewline
            (String.ofList (text.toList.take (i + 1)))} i ∧
        text.toList[i]? = some c ∧ loc = some (.ofOffset filename text.toList i) ∧
        ∀ q, tokenize (text ++ q) filename keepNewline false =
          tokenize text filename keepNewline false) ∧
    ((∃ loc, tokenize text filename keepNewline false =
        .error (.lexical (.unterminatedString loc))) ↔
      (∃ p, tokenize text filename keepNewline false = .error p) ∧
        Completable filename keepNewline text) ∧
    ∀ p, tokenize text filename keepNewline false = .error p →
      (∃ c loc context, p = .lexical (.invalidCharacter c loc context)) ∨
        ∃ loc, p = .lexical (.unterminatedString loc) := by
  refine ⟨?_, ?_, ?_, ?_⟩
  · rw [← not_completable_iff]
    constructor
    · rintro ⟨c, loc, context, herror⟩
      obtain ⟨u, v, htext, -, hspoiled⟩ := exists_spoiledAt herror
      rw [← String.ofList_toList (s := text), htext]
      exact hspoiled.not_completable v
    · intro hnot
      -- The text itself is one of its continuations.
      obtain ⟨p, hp⟩ := not_completable_iff.1 hnot ""
      rw [String.append_empty] at hp
      rcases error_cases hp with ⟨⟨c, loc, context, rfl⟩, -⟩ | ⟨-, hcompletable⟩
      · exact ⟨c, loc, context, hp⟩
      · exact absurd hcompletable hnot
  · intro c loc context herror
    obtain ⟨u, v, htext, rfl, hspoiled⟩ := exists_spoiledAt herror
    refine ⟨u.length, hspoiled.isLeast htext, ?_, ?_, ?_⟩
    · rw [htext, List.getElem?_append_right (Nat.le_refl _), Nat.sub_self]
      rfl
    · rw [htext, Location.ofOffset, List.take_left]
    · intro q
      rw [herror]
      exact hspoiled.tokenize_append htext q
  · constructor
    · rintro ⟨loc, herror⟩
      rcases error_cases herror with ⟨⟨_, _, _, hp⟩, -⟩ | ⟨-, hcompletable⟩
      · cases hp
      · exact ⟨⟨_, herror⟩, hcompletable⟩
    · rintro ⟨⟨p, herror⟩, hcompletable⟩
      rcases error_cases herror with ⟨-, hnot⟩ | ⟨⟨loc, rfl⟩, -⟩
      · exact absurd hcompletable hnot
      · exact ⟨loc, herror⟩
  · intro p herror
    exact (error_cases herror).imp And.left And.left

/-- A backslash cannot stand between tokens, and an open literal may end with one. -/
theorem tokenize_error_earliest_backslash :
    (∃ i, IsLeast {i | ¬ Completable "f" true (String.ofList ("a \\b".toList.take (i + 1)))} i ∧
      "a \\b".toList[i]? = some '\\' ∧
      ∀ q, tokenize ("a \\b" ++ q) "f" true false = tokenize "a \\b" "f" true false) ∧
    Completable "f" true "a '\\" := by
  have hinvalid : tokenize "a \\b" "f" true false =
      .error (.lexical (.invalidCharacter '\\' (some ⟨"f", 1, 3⟩) none)) := by decide +kernel
  have hopen : tokenize "a '\\" "f" true false =
      .error (.lexical (.unterminatedString (some ⟨"f", 1, 3⟩))) := by decide +kernel
  obtain ⟨i, hleast, hchar, -, hall⟩ :=
    (tokenize_error_earliest "a \\b" "f" true).2.1 _ _ _ hinvalid
  exact ⟨⟨i, hleast, hchar, hall⟩,
    ((tokenize_error_earliest "a '\\" "f" true).2.2.1.1 ⟨_, hopen⟩).2⟩

end RpalLex
