import Mathlib.Data.List.Chain
import RpalLex.Proofs.Iteration

/-! # The lexer accepts its grammar

  A segmentation of a text is a sequence of kinds and values that, written
  one after another, give the text, each in the language of its kind, and
  none continued by the character that the next one begins with.  Nothing in
  this says how to find one.

  The lexer finds it, if line feeds are kept: the tokens of a text are its
  only segmentation, and a text without tokens has none.

  Main statement: `tokenize_eq_ok_iff_segmentation`. -/

namespace RpalLex

/-- What a token says, without the place where it says it. -/
abbrev Lexical := Token.Kind × String

namespace Lexical

/-- The text as it stands in a program. -/
def written (x : Lexical) : List Char := x.1.written x.2.toList

def ofToken (t : Token) : Lexical := (t.kind, t.value)

/-- Written right before the second one, the first does not go on with its first character. -/
def Borders (x y : Lexical) : Prop := Stops x.1.continuedBy y.written

end Lexical

/-- A text as a sequence of kinds and values. -/
structure Segmentation (xs : List Lexical) (r : List Char) : Prop where
  flatMap_written : xs.flatMap Lexical.written = r
  language : ∀ x ∈ xs, x.1.Language x.2.toList
  borders : xs.IsChain Lexical.Borders

variable {xs : List Lexical} {x : Lexical} {r rest : List Char} {ps : List Piece}

theorem Segmentation.written_ne_nil (h : Segmentation xs r) (hx : x ∈ xs) : x.written ≠ [] :=
  (h.language x hx).written_ne_nil

/-- A segmentation is found from the front on. -/
theorem segmentation_cons_iff :
    Segmentation (x :: xs) r ↔ ∃ rest, r = x.written ++ rest ∧ x.1.Language x.2.toList ∧
      Stops x.1.continuedBy rest ∧ Segmentation xs rest := by
  constructor
  · rintro ⟨rfl, hlang, hborders⟩
    obtain ⟨hx, hxs⟩ := List.forall_mem_cons.1 hlang
    obtain ⟨hhead, htail⟩ := List.isChain_cons.1 hborders
    refine ⟨xs.flatMap Lexical.written, rfl, hx, ?_, rfl, hxs, htail⟩
    cases xs with
    | nil => exact fun _ hc => absurd hc (by simp)
    | cons y ys =>
      -- What follows begins with the first character of the next value, which has one.
      have hne : y.written ≠ [] := (hxs y (by simp)).written_ne_nil
      intro c hc
      rw [List.flatMap_cons, List.head?_append_of_ne_nil _ hne] at hc
      exact hhead y rfl c hc
  · rintro ⟨rest, rfl, hx, hstops, hxs⟩
    refine ⟨by rw [List.flatMap_cons, hxs.flatMap_written],
      List.forall_mem_cons.2 ⟨hx, hxs.language⟩, List.isChain_cons.2 ⟨?_, hxs.borders⟩⟩
    intro y hy
    cases xs with
    | nil => cases hy
    | cons z zs =>
      obtain rfl : z = y := by simpa using hy
      have hne := hxs.written_ne_nil (x := z) (by simp)
      intro c hc
      rw [← List.head?_append_of_ne_nil _ hne, ← List.flatMap_cons, hxs.flatMap_written] at hc
      exact hstops c hc

/-! ## Pieces are a segmentation -/

/-- What a piece says. -/
def Piece.lexical (p : Piece) : Lexical := (p.kind, String.ofList p.value)

theorem map_ofToken_located (loc : Location) (ps : List Piece) :
    (located loc ps).map Lexical.ofToken = ps.map Piece.lexical := by
  induction ps generalizing loc with
  | nil => rfl
  | cons p ps ih => rw [located, List.map_cons, List.map_cons, ih]; rfl

theorem Cuts.segmentation (h : Cuts true r ps []) : Segmentation (ps.map Piece.lexical) r := by
  generalize hrest : ([] : List Char) = rest at h
  induction h with
  | nil r =>
    subst hrest
    exact ⟨rfl, by simp, .nil⟩
  | @cons _ rest1 _ _ _ hp _ ih =>
    cases hp with
    | piece hv hstops =>
      refine segmentation_cons_iff.2 ⟨rest1, ?_, ?_, hstops, ih hrest⟩
      · simp [Lexical.written, Piece.lexical]
      · simpa [Piece.lexical] using hv
    | commentLine hdrop => cases hdrop

theorem Segmentation.cuts (h : Segmentation xs r) :
    ∃ ps, Cuts true r ps [] ∧ ps.map Piece.lexical = xs := by
  induction xs generalizing r with
  | nil =>
    obtain ⟨rfl, -, -⟩ := h
    exact ⟨[], .nil [], rfl⟩
  | cons x xs ih =>
    obtain ⟨rest, rfl, hx, hstops, hxs⟩ := segmentation_cons_iff.1 h
    obtain ⟨ps, hps, hmap⟩ := ih hxs
    have hp : FrontOf true (x.written ++ rest) (.piece ⟨x.1, x.2.toList, []⟩ rest) :=
      .piece hx hstops fun _ => .inl rfl
    exact ⟨_, .cons hp hps, by simp [Piece.lexical, hmap]⟩

/-- With line feeds kept, a sequence of kinds and values is that of the tokens of a text if and
    only if it is a segmentation of the text. -/
theorem tokenize_eq_ok_iff_segmentation (text filename : String) (xs : List Lexical) :
    (∃ ts, tokenize text filename true false = .ok ts ∧ ts.map Lexical.ofToken = xs) ↔
      Segmentation xs text.toList := by
  constructor
  · rintro ⟨ts, htokens, rfl⟩
    obtain ⟨ps, hps, rfl⟩ := cuts_of_tokenize htokens
    rw [map_ofToken_located]
    exact hps.segmentation
  · intro h
    obtain ⟨ps, hps, rfl⟩ := h.cuts
    exact ⟨_, tokenize_of_cuts hps, map_ofToken_located _ ps⟩

end RpalLex
