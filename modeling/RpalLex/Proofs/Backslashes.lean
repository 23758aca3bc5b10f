import Mathlib.Algebra.Ring.Parity
import Mathlib.Data.List.Induction
import RpalLex.Proofs.Grammar

/-! # Backslashes in string literals

  A literal keeps in mind whether an escape is pending.  There is another way
  to know it: an escape is pending behind a text exactly if the text ends with
  an odd number of backslashes.  So a quote belongs to a literal if the row of
  backslashes right in front of it is of odd length, and closes the literal if
  that row is of even length, which may be zero.

  Main statements: `nextPending_eq_some_iff` (one character) and
  `openBody_iff` (a text that leaves a literal open). -/

namespace RpalLex

open Alphabet

/-! ## §1. One character -/

/-- A literal goes on with an escaped quote and with every character of the body of a string; an
    escape is pending afterwards behind a backslash that is not itself escaped. -/
theorem nextPending_eq_some_iff {pending pending' : Bool} {c : Char} :
    nextPending pending c = some pending' ↔
      (c = quote → pending = true) ∧ (c ≠ quote → isStringBody c = true) ∧
        (c == '\\' && !pending) = pending' := by
  by_cases hq : c = quote
  · subst hq
    have hback : (quote == '\\') = false := by decide
    cases pending with
    | false => simp [nextPending, isStringBody_quote]
    | true => simp [nextPending, isEscapable_quote, hback]
  · cases hesc : isEscapable c with
    | true =>
      have hbody := isStringBody_of_isEscapable hesc hq
      cases pending with
      | false => simp [nextPending, hbody, hq]
      | true => simp [nextPending, hesc, hbody, hq]
    | false =>
      -- The character is no backslash, since a backslash may be escaped.
      have hback : (c == '\\') = false := by
        apply beq_false_of_ne
        rintro rfl
        exact absurd hesc (by decide)
      simp [nextPending, hesc, hback, hq]

/-! ## §2. A whole text -/

/-- The length of the row of backslashes that a text ends with. -/
def backslashesAtEnd (b : List Char) : Nat := (b.reverse.takeWhile (· == '\\')).length

theorem backslashesAtEnd_concat (b : List Char) (c : Char) :
    backslashesAtEnd (b ++ [c]) = if c = '\\' then backslashesAtEnd b + 1 else 0 := by
  by_cases h : c = '\\'
  · simp [backslashesAtEnd, h]
  · simp [backslashesAtEnd, h]

/-- The text is made of quotes and of characters of the body of a string, and there is an odd
    number of backslashes right in front of every quote. -/
structure QuotesEscaped (b : List Char) : Prop where
  body : ∀ c ∈ b, c ≠ quote → isStringBody c = true
  odd : ∀ u w, b = u ++ quote :: w → Odd (backslashesAtEnd u)

theorem quotesEscaped_nil : QuotesEscaped [] where
  body := by simp
  odd := by simp

theorem quotesEscaped_concat_iff {b : List Char} {c : Char} :
    QuotesEscaped (b ++ [c]) ↔ QuotesEscaped b ∧ (c ≠ quote → isStringBody c = true) ∧
      (c = quote → Odd (backslashesAtEnd b)) := by
  constructor
  · intro h
    refine ⟨⟨?_, ?_⟩, ?_, ?_⟩
    · intro d hd
      exact h.body d (List.mem_append_left [c] hd)
    · intro u w hb
      exact h.odd u (w ++ [c]) (by rw [hb]; simp)
    · exact h.body c (by simp)
    · rintro rfl
      exact h.odd b [] rfl
  · rintro ⟨hb, hbody, hodd⟩
    constructor
    · intro d hd
      rcases List.mem_append.1 hd with hd | hd
      · exact hb.body d hd
      · obtain rfl := List.mem_singleton.1 hd
        exact hbody
    · -- The quote is one of `b`, or it is the last character.
      intro u w heq
      rcases List.eq_nil_or_concat w with rfl | ⟨w, d, rfl⟩
      · obtain ⟨rfl, rfl⟩ := List.append_singleton_inj.1 heq
        exact hodd rfl
      · rw [List.concat_eq_append, ← List.cons_append, ← List.append_assoc] at heq
        obtain ⟨rfl, -⟩ := List.append_singleton_inj.1 heq
        exact hb.odd u w rfl

theorem openBody_concat_iff {b : List Char} {c : Char} {pending : Bool} :
    OpenBody (b ++ [c]) pending ↔
      ∃ pending', OpenBody b pending' ∧ nextPending pending' c = some pending := by
  unfold OpenBody
  rw [List.foldlM_append]
  simp [Option.bind_eq_some_iff]

/-- A literal is open behind a text, with an escape pending or not, if all quotes in the text are
    escaped and the number of backslashes at its end is odd or not. -/
theorem openBody_iff {b : List Char} {pending : Bool} :
    OpenBody b pending ↔ QuotesEscaped b ∧ (pending = true ↔ Odd (backslashesAtEnd b)) := by
  induction b using List.reverseRecOn generalizing pending with
  | nil => simp [OpenBody, quotesEscaped_nil, backslashesAtEnd, eq_comm]
  | append_singleton b c ih =>
    -- Behind a backslash the parity changes, behind any other character it is even.
    have hparity : ∀ pending' : Bool, (pending' = true ↔ Odd (backslashesAtEnd b)) →
        ((c == '\\' && !pending') = true ↔ Odd (backslashesAtEnd (b ++ [c]))) := by
      intro pending' hpending'
      rw [backslashesAtEnd_concat]
      by_cases h : c = '\\'
      · simp [h, Nat.odd_add_one, ← hpending']
      · simp [h]
    rw [openBody_concat_iff, quotesEscaped_concat_iff]
    constructor
    · rintro ⟨pending', hopen, hnext⟩
      obtain ⟨hb, hpending'⟩ := ih.1 hopen
      obtain ⟨hquote, hbody, rfl⟩ := nextPending_eq_some_iff.1 hnext
      exact ⟨⟨hb, hbody, fun hq => hpending'.1 (hquote hq)⟩, hparity pending' hpending'⟩
    · rintro ⟨⟨hb, hbody, hodd⟩, hpending⟩
      obtain ⟨pending', hpending'⟩ : ∃ pending' : Bool,
          pending' = true ↔ Odd (backslashesAtEnd b) :=
        ⟨decide (Odd (backslashesAtEnd b)), decide_eq_true_iff⟩
      refine ⟨pending', ih.2 ⟨hb, hpending'⟩, nextPending_eq_some_iff.2 ⟨?_, hbody, ?_⟩⟩
      · intro hq
        exact hpending'.2 (hodd hq)
      · rw [Bool.eq_iff_iff]
        exact (hparity pending' hpending').trans hpending.symm

end RpalLex
