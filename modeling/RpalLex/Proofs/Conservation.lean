import RpalLex.Proofs.Invariance
import RpalLex.Proofs.Iteration

/-! # Conservation of characters

  No character is lost, and none is read twice.  What the delivered tokens
  cover, the character that waits in the slot and the characters that the
  stream still holds make up the text, at every point of every run.

  A run that drops the line feeds behind comments covers them as well.  To
  say where they are takes no more than the tokens and the text: there is one
  behind every comment that something follows.

  Main statement: `covered_append_remaining`. -/

namespace RpalLex

/-! ## §1. What tokens cover -/

/-- What a run that goes on with `following` has dropped right behind a token. -/
def Token.droppedBefore (keepNewline : Bool) (t : Token) (following : List Char) : List Char :=
  if keepNewline = false ∧ t.kind = .comment ∧ following ≠ [] then ['\n'] else []

/-- What the tokens at the beginning of a text cover: their texts, and behind a comment that the
    text goes on after, unless line feeds are kept, a line feed. -/
def covered (keepNewline : Bool) : List Char → List Token → List Char
  | _, [] => []
  | r, t :: ts =>
    let following := r.drop t.text.toList.length
    let dropped := t.droppedBefore keepNewline following
    t.text.toList ++ dropped ++ covered keepNewline (following.drop dropped.length) ts

/-- The texts of the tokens with a line feed put back behind every comment. -/
def restored (ts : List Token) : List Char :=
  ts.flatMap fun t => t.text.toList ++ if t.kind = .comment then ['\n'] else []

variable {keepNewline : Bool} {r rest : List Char} {ps : List Piece} {loc : Location}

theorem Cuts.covered_located (h : Cuts keepNewline r ps rest) :
    covered keepNewline r (located loc ps) = sources ps := by
  induction h generalizing loc with
  | nil r => rfl
  | @cons r rest1 rest p ps hp _ ih =>
    have hr : r = p.text ++ (p.dropped ++ rest1) := by
      rw [hp.eq_source_append, Piece.source, List.append_assoc]
    have hfollowing : r.drop (p.token loc).text.toList.length = p.dropped ++ rest1 := by
      rw [hr, Piece.text_token, List.drop_left]
    have hdropped : (p.token loc).droppedBefore keepNewline (p.dropped ++ rest1) = p.dropped :=
      hp.dropped_eq.symm
    simp only [located, covered]
    rw [hfollowing, hdropped, List.drop_left, ih, Piece.text_token, sources_cons, Piece.source]

/-! ## §2. Whole texts -/

theorem render_located (loc : Location) (ps : List Piece) :
    (Token.render (located loc ps)).toList = ps.flatMap Piece.text := by
  rw [Token.toList_render]
  induction ps generalizing loc with
  | nil => rfl
  | cons p ps ih => simp [located, ih]

/-- Where line feeds are kept, nothing is dropped. -/
theorem Cuts.sources_of_kept (h : Cuts true r ps rest) : sources ps = ps.flatMap Piece.text := by
  induction h with
  | nil r => rfl
  | cons hp _ ih =>
    have hdropped := hp.dropped_eq
    rw [if_neg (by simp)] at hdropped
    rw [sources_cons, ih, List.flatMap_cons, Piece.source, hdropped, List.append_nil]

theorem Cuts.of_nil (h : Cuts keepNewline [] ps rest) : ps = [] := by
  cases h with
  | nil => rfl
  | cons hp _ =>
    have happend := List.append_eq_nil_iff.1 hp.eq_source_append.symm
    exact absurd (List.append_eq_nil_iff.1 happend.1).1 hp.text_ne_nil

/-- Only a comment at the very end has no line feed to be put back. -/
theorem Cuts.restored_located (h : Cuts false r ps []) (loc : Location) :
    restored (located loc ps) = r ∨
      (∃ t, (located loc ps).getLast? = some t ∧ t.kind = .comment) ∧
        restored (located loc ps) = r ++ ['\n'] := by
  -- The induction goes along the cuts, all of which end where the text ends.
  generalize hrest : ([] : List Char) = rest at h
  induction h generalizing loc with
  | nil r => subst hrest; exact .inl rfl
  | @cons r rest1 rest p ps hp hps ih =>
    subst hrest
    have hrestored : restored (located loc (p :: ps)) =
        p.text ++ (if p.kind = .comment then ['\n'] else []) ++
          restored (located (loc.after p.source) ps) := by
      simp only [located, restored, List.flatMap_cons, Piece.text_token]
      rfl
    have hdropped := hp.dropped_eq
    by_cases hend : p.kind = .comment ∧ p.dropped ++ rest1 = []
    · -- The text ends with this comment.
      obtain ⟨hk, hnil⟩ := hend
      obtain ⟨hdrop, rfl⟩ := List.append_eq_nil_iff.1 hnil
      obtain rfl := hps.of_nil
      right
      refine ⟨⟨p.token loc, rfl, hk⟩, ?_⟩
      rw [hrestored, hp.eq_source_append, Piece.source, hdrop, if_pos hk]
      simp [located, restored]
    · -- What is put back is what was dropped.
      have hline : p.text ++ (if p.kind = .comment then ['\n'] else []) = p.source := by
        by_cases hk : p.kind = .comment
        · rw [if_pos ⟨rfl, hk, fun hnil => hend ⟨hk, hnil⟩⟩] at hdropped
          rw [if_pos hk, Piece.source, hdropped]
        · rw [if_neg fun h => hk h.2.1] at hdropped
          rw [if_neg hk, Piece.source, hdropped]
      rw [hrestored, hline, hp.eq_source_append]
      rcases ih (loc.after p.source) rfl with hall | ⟨⟨t, hlast, hk⟩, hall⟩
      · left
        rw [hall]
      · right
        refine ⟨⟨t, ?_, hk⟩, ?_⟩
        · rw [located, List.getLast?_cons, hlast]
          rfl
        · rw [hall, List.append_assoc]

/-! ## §3. Every run -/

/-- At every point of a run over a text, what the tokens cover, the slot and the stream make up
    the text, and at its end the tokens cover it all.  So rendering the tokens of a text gives the
    text back if line feeds are kept, and otherwise lacks one line feed behind every comment. -/
theorem covered_append_remaining (text filename : String) (keepNewline : Bool) :
    (∀ ts lx, (Lexer.ofText text filename keepNewline).Delivers ts lx →
      (∃ unread : List Char, lx.cursor.stream.script = unread.map .char ∧
        covered keepNewline text.toList ts ++ lx.cursor.slot.toList ++ unread = text.toList) ∧
      (lx.next.1 = .ok none → covered keepNewline text.toList ts = text.toList)) ∧
    ∀ ts, tokenize text filename keepNewline false = .ok ts →
      covered keepNewline text.toList ts = text.toList ∧
      (keepNewline = true → Token.render ts = text) ∧
      (keepNewline = false → restored ts = text.toList ∨
        (∃ t, ts.getLast? = some t ∧ t.kind = .comment) ∧
          restored ts = text.toList ++ ['\n']) := by
  have hstart := Lexer.before_ofText text filename keepNewline
  constructor
  · intro ts lx hrun
    obtain ⟨ps, rest, hps, rfl, hlx⟩ := hrun.cuts hstart
    -- What is to come is in the slot and the stream, since nothing but the end closes the cursor.
    have hdrained := Cursor.preserved_drained.delivers hrun (Cursor.drained_ofText text filename)
    obtain ⟨unread, hscript, hrest⟩ := hdrained.eq_slot_append hlx.cursor
    rw [hps.covered_located]
    constructor
    · refine ⟨unread, hscript, ?_⟩
      rw [List.append_assoc, ← hrest, ← hps.eq_sources_append]
    · intro hnext
      obtain rfl := hlx.of_next_none hnext
      rw [hps.eq_sources_append, List.append_nil]
  · intro ts htokens
    obtain ⟨ps, hps, rfl⟩ := cuts_of_tokenize htokens
    have htext : text.toList = sources ps := by simpa using hps.eq_sources_append
    refine ⟨?_, ?_, ?_⟩
    · rw [hps.covered_located, htext]
    · intro hkeep
      subst hkeep
      rw [← String.toList_inj, render_located, htext, hps.sources_of_kept]
    · intro hdrop
      subst hdrop
      exact hps.restored_located (.start filename)

/-- The line feed behind the first comment is dropped; there is none behind the second. -/
theorem covered_append_remaining_comments :
    (∃ ts lx, (Lexer.ofText "//a\nb//" "f" false).Delivers ts lx ∧ lx.next.1 = .ok none ∧
      (∃ unread : List Char, lx.cursor.stream.script = unread.map .char ∧
        covered false "//a\nb//".toList ts ++ lx.cursor.slot.toList ++ unread =
          "//a\nb//".toList) ∧
      covered false "//a\nb//".toList ts = "//a\nb//".toList) ∧
    (∃ ts, tokenize "//a\nb//" "f" false false = .ok ts ∧
      restored ts = "//a\nb//".toList ++ ['\n']) ∧
    ∃ ts, tokenize "//a\nb//" "f" true false = .ok ts ∧ Token.render ts = "//a\nb//" := by
  let ts : List Token := [⟨.comment, "//a", ⟨"f", 1, 1⟩⟩, ⟨.identifier, "b", ⟨"f", 2, 1⟩⟩,
    ⟨.comment, "//", ⟨"f", 2, 2⟩⟩]
  let kept : List Token := [⟨.comment, "//a", ⟨"f", 1, 1⟩⟩, ⟨.whitespace, "\n", ⟨"f", 1, 4⟩⟩,
    ⟨.identifier, "b", ⟨"f", 2, 1⟩⟩, ⟨.comment, "//", ⟨"f", 2, 2⟩⟩]
  have hrun : (Lexer.ofText "//a\nb//" "f" false).Delivers ts _ :=
    .cons_of_answer (by decide +kernel) (.cons_of_answer (by decide +kernel)
      (.cons_of_answer (by decide +kernel) (.nil _)))
  have htokens : tokenize "//a\nb//" "f" false false = .ok ts := by decide +kernel
  have hkept : tokenize "//a\nb//" "f" true false = .ok kept := by decide +kernel
  refine ⟨⟨ts, _, hrun, by decide +kernel, ?_, ?_⟩, ⟨ts, htokens, ?_⟩, kept, hkept, ?_⟩
  · exact ((covered_append_remaining _ _ _).1 ts _ hrun).1
  · exact ((covered_append_remaining _ _ _).1 ts _ hrun).2 (by decide +kernel)
  · have hrestored := ((covered_append_remaining _ _ _).2 ts htokens).2.2 rfl
    exact (hrestored.resolve_left (by decide)).2
  · exact ((covered_append_remaining _ _ _).2 kept hkept).2.1 rfl

end RpalLex
