import RpalLex.Proofs.Conservation

/-! # Positions are exact

  The line and the column that a token carries are those of its first
  character, counted in the text.  The offset of that character is the length
  of what the tokens before it cover.  Behind a token the cursor stands where
  the covered text ends, although it may have read one character more and
  given it back.

  Main statement: `start_eq_ofOffset`. -/

namespace RpalLex

open Alphabet

variable {keepNewline : Bool} {r rest : List Char} {ps : List Piece}

/-- The offset of the first character of a text that tokens at its beginning do not cover: the
    lengths of their texts and the line feeds that were dropped. -/
def offsetBehind (keepNewline : Bool) (r : List Char) (ts : List Token) : Nat :=
  (covered keepNewline r ts).length

/-- The pieces of a text cover it as far as the rest, where the cursor stands. -/
theorem Cuts.ofOffset_offsetBehind (h : Cuts keepNewline r ps rest) (filename : String)
    (loc : Location) :
    Location.ofOffset filename r (offsetBehind keepNewline r (located loc ps)) =
      (Location.start filename).after (sources ps) := by
  rw [offsetBehind, h.covered_located, h.eq_sources_append, Location.ofOffset_append]

theorem Cuts.drop_offsetBehind (h : Cuts keepNewline r ps rest) (loc : Location) :
    r.drop (offsetBehind keepNewline r (located loc ps)) = rest := by
  rw [offsetBehind, h.covered_located, h.eq_sources_append, List.drop_left]

/-- Every token that any call delivers stands at the offset that the tokens before it cover,
    carries the position of this offset, and leaves the cursor at the position of the offset
    behind it.  A literal that is not closed is reported at the position of its opening quote. -/
theorem start_eq_ofOffset (text filename : String) (keepNewline : Bool) (n : Nat) :
    (∀ t lx, ((Lexer.ofText text filename keepNewline).afterCalls n).next = (.ok (some t), lx) →
      ∃ ts, (Lexer.ofText text filename keepNewline).Delivers (ts ++ [t]) lx ∧ ts.length = n ∧
        t.text.toList <+: text.toList.drop (offsetBehind keepNewline text.toList ts) ∧
        t.start = .ofOffset filename text.toList (offsetBehind keepNewline text.toList ts) ∧
        lx.cursor.location =
          .ofOffset filename text.toList (offsetBehind keepNewline text.toList (ts ++ [t]))) ∧
    ∀ loc, ((Lexer.ofText text filename keepNewline).afterCalls n).next.1 =
        .error (.lexical (.unterminatedString loc)) →
      ∃ ts lx, (Lexer.ofText text filename keepNewline).Delivers ts lx ∧ ts.length ≤ n ∧
        (∃ b pending, text.toList.drop (offsetBehind keepNewline text.toList ts) = quote :: b ∧
          OpenBody b pending) ∧
        loc = some (.ofOffset filename text.toList (offsetBehind keepNewline text.toList ts)) := by
  have hstart := Lexer.before_ofText text filename keepNewline
  obtain ⟨ts, lx1, hrun, hcalls⟩ := hstart.delivers_of_afterCalls n
  obtain ⟨ps, rest, hps, rfl, hlx1⟩ := hrun.cuts hstart
  constructor
  · intro t lx hnext
    rcases hcalls with ⟨hlength, rfl⟩ | ⟨-, hno, hsame⟩
    · obtain ⟨p, rest', hp, rfl, hlx, -⟩ := hlx1.of_next_token hnext
      have hall : Cuts keepNewline text.toList (ps ++ [p]) rest' :=
        hps.append (.cons hp (.nil _))
      refine ⟨_, hrun.concat hnext, hlength, ?_, ?_, ?_⟩
      · rw [hps.drop_offsetBehind, hp.eq_source_append, Piece.text_token, Piece.source,
          List.append_assoc]
        exact List.prefix_append _ _
      · rw [hps.ofOffset_offsetBehind]
        rfl
      · rw [← located_concat, hall.ofOffset_offsetBehind, sources_concat, Location.after_append]
        exact hlx.cursor.location_eq
    · -- No token is delivered after a call without one.
      rw [hnext] at hsame
      exact absurd hsame.symm (hno t)
  · intro loc herror
    -- The error is that of the first call without a token, whether or not it is this call.
    have hlast : lx1.next.1 = .error (.lexical (.unterminatedString loc)) ∧
        (located (.start filename) ps).length ≤ n := by
      rcases hcalls with ⟨hlength, rfl⟩ | ⟨hless, -, hsame⟩
      · exact ⟨herror, Nat.le_of_eq hlength⟩
      · exact ⟨by rw [← hsame, herror], Nat.le_of_lt hless⟩
    obtain ⟨ho, rfl⟩ := hlx1.of_next_unterminated hlast.1
    refine ⟨_, lx1, hrun, hlast.2, ?_, ?_⟩
    · rw [hps.drop_offsetBehind]
      exact ho.quote_of_unterminated
    · rw [hps.ofOffset_offsetBehind]

/-- The line feed that follows the first word has been looked at, and the literal that follows the
    line feed is not closed. -/
theorem start_eq_ofOffset_lines :
    (∃ t lx ts, ((Lexer.ofText "a\n'b" "f" false).afterCalls 0).next = (.ok (some t), lx) ∧
      t.start = .ofOffset "f" "a\n'b".toList (offsetBehind false "a\n'b".toList ts) ∧
      lx.cursor.location =
        .ofOffset "f" "a\n'b".toList (offsetBehind false "a\n'b".toList (ts ++ [t]))) ∧
    ∃ loc ts, ((Lexer.ofText "a\n'b" "f" false).afterCalls 2).next.1 =
        .error (.lexical (.unterminatedString loc)) ∧
      loc = some (.ofOffset "f" "a\n'b".toList (offsetBehind false "a\n'b".toList ts)) := by
  have htoken : ((Lexer.ofText "a\n'b" "f" false).afterCalls 0).next.1 =
      .ok (some ⟨.identifier, "a", ⟨"f", 1, 1⟩⟩) := by decide +kernel
  have herror : ((Lexer.ofText "a\n'b" "f" false).afterCalls 2).next.1 =
      .error (.lexical (.unterminatedString (some ⟨"f", 2, 1⟩))) := by decide +kernel
  obtain ⟨ts, -, -, -, hstart, hlocation⟩ :=
    (start_eq_ofOffset "a\n'b" "f" false 0).1 _ _ (Prod.ext htoken rfl)
  obtain ⟨ts', lx, -, -, -, hloc⟩ := (start_eq_ofOffset "a\n'b" "f" false 2).2 _ herror
  exact ⟨⟨_, _, ts, Prod.ext htoken rfl, hstart, hlocation⟩, _, ts', herror, hloc⟩

end RpalLex
