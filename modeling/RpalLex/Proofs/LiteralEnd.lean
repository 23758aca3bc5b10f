import Mathlib.Order.Bounds.Defs
import RpalLex.Proofs.Backslashes
import RpalLex.Proofs.FirstToken

/-! # Where a string literal ends

  A literal is read from left to right: a backslash takes the character behind
  it along if the two make an escape.  Where the literal ends can be seen
  without reading it.  Two kinds of offsets behind the opening quote end it:

  * a quote *closes* it if the row of backslashes right in front of the quote
    is of even length, which may be zero;
  * a character that belongs to no string is a *stray*, even behind a
    backslash.

  The first of these offsets decides.  If there is none, the text ends while
  the literal is open.

  Main statement: `literal_of_first_end` (what is read, in all three cases,
  and where the cursor is left). -/

namespace RpalLex

open Alphabet

/-! ## §1. The ends of a literal -/

/-- A quote at the offset, behind an even number of backslashes. -/
def ClosesAt (r : List Char) (j : Nat) : Prop :=
  r[j]? = some quote ∧ Even (backslashesAtEnd (r.take j))

/-- A character at the offset that is no quote and belongs to no string. -/
def StrayAt (r : List Char) (j : Nat) (c : Char) : Prop :=
  r[j]? = some c ∧ c ≠ quote ∧ isStringBody c = false

/-- The literal cannot go beyond the offset. -/
def EndsAt (r : List Char) (j : Nat) : Prop := ClosesAt r j ∨ ∃ c, StrayAt r j c

variable {r : List Char} {j : Nat} {c : Char}

instance : Decidable (ClosesAt r j) := inferInstanceAs (Decidable (_ ∧ _))

instance : Decidable (StrayAt r j c) := inferInstanceAs (Decidable (_ ∧ _))

/-- Only the character at the offset can be the stray. -/
theorem endsAt_iff :
    EndsAt r j ↔ ClosesAt r j ∨ (r[j]?.any fun c => decide (StrayAt r j c)) = true := by
  unfold EndsAt
  rw [Option.any_eq_true]
  refine or_congr_right ?_
  constructor
  · rintro ⟨c, hc⟩
    exact ⟨c, hc.1, decide_eq_true hc⟩
  · rintro ⟨c, -, hc⟩
    exact ⟨c, of_decide_eq_true hc⟩

instance : Decidable (EndsAt r j) := decidable_of_iff _ endsAt_iff.symm

/-- A text without such offsets is made of characters that leave the literal open. -/
theorem quotesEscaped_take (h : ∀ i < j, ¬ EndsAt r i) : QuotesEscaped (r.take j) := by
  induction j with
  | zero => exact quotesEscaped_nil
  | succ j ih =>
    have hbefore : QuotesEscaped (r.take j) := ih fun i hi => h i (by omega)
    rw [List.take_add_one]
    cases hc : r[j]? with
    | none => simpa using hbefore
    | some c =>
      have hend : ¬ EndsAt r j := h j (by omega)
      apply quotesEscaped_concat_iff.2
      refine ⟨hbefore, ?_, ?_⟩
      · intro hne
        by_contra hbody
        exact hend (.inr ⟨c, hc, hne, by simpa using hbody⟩)
      · rintro rfl
        by_contra hodd
        exact hend (.inl ⟨hc, Nat.not_odd_iff_even.1 hodd⟩)

/-- An escape may be pending behind such a text; in front of a quote that closes none is. -/
theorem exists_openBody_take (h : ∀ i < j, ¬ EndsAt r i) :
    ∃ pending, OpenBody (r.take j) pending ∧ (ClosesAt r j → pending = false) := by
  refine ⟨decide (Odd (backslashesAtEnd (r.take j))), ?_, ?_⟩
  · exact openBody_iff.2 ⟨quotesEscaped_take h, decide_eq_true_iff⟩
  · rintro ⟨-, heven⟩
    exact decide_eq_false (Nat.not_odd_iff_even.2 heven)

theorem eq_take_append_cons (h : r[j]? = some c) : r = r.take j ++ c :: r.drop (j + 1) := by
  obtain ⟨hlt, rfl⟩ := List.getElem?_eq_some_iff.1 h
  rw [← List.drop_eq_getElem_cons hlt, List.take_append_drop]

theorem take_append_singleton (h : r[j]? = some c) : r.take j ++ [c] = r.take (j + 1) := by
  rw [List.take_add_one, h, Option.toList_some]

/-! ## §2. Reading a literal -/

namespace Cursor

variable {cur : Cursor} {loc : Location}

theorem Before.literal_of_closesAt (h : cur.Before loc r) (start : Location)
    (hfirst : ∀ i < j, ¬ EndsAt r i) (hj : ClosesAt r j) :
    ∃ cur', cur.literal start = (.ok (tokenOf .string start (r.take j)), cur') ∧
      cur'.Fresh (loc.after (r.take (j + 1))) (r.drop (j + 1)) := by
  obtain ⟨pending, hopen, hpending⟩ := exists_openBody_take hfirst
  obtain rfl := hpending hj
  rw [eq_take_append_cons hj.1] at h
  rw [← take_append_singleton hj.1]
  exact h.literal hopen

theorem Before.literal_of_strayAt (h : cur.Before loc r) (start : Location)
    (hfirst : ∀ i < j, ¬ EndsAt r i) (hj : StrayAt r j c) :
    (cur.literal start).1 = .error (.lexical
      (.invalidCharacter c (some (loc.after (r.take j))) (some "string literal"))) := by
  obtain ⟨pending, hopen, -⟩ := exists_openBody_take hfirst
  rw [eq_take_append_cons hj.1] at h
  exact h.literal_stray hopen hj.2.1 hj.2.2

theorem Before.literal_of_endless (h : cur.Before loc r) (start : Location)
    (hnone : ∀ i, ¬ EndsAt r i) :
    (cur.literal start).1 = .error (.lexical (.unterminatedString (some start))) ∧
      (cur.literal start).2.isOpen = false := by
  obtain ⟨pending, hopen, -⟩ := exists_openBody_take (j := r.length) fun i _ => hnone i
  rw [List.take_length] at hopen
  obtain ⟨cur', hliteral, hcur'⟩ := h.literal_unterminated hopen start
  rw [hliteral]
  exact ⟨rfl, hcur'.isOpen_eq rfl⟩

theorem Before.fresh_next {c : Char} (h : cur.Before loc (c :: r)) :
    cur.next.2.Fresh (loc.advance c) r := by
  obtain ⟨cur', hnext, hcur', -⟩ := h.next_cons
  rw [hnext]
  exact hcur'

/-- The literal behind an opening quote.  If the first offset that ends it closes it, everything
    before that offset is its value and the cursor stands behind the closing quote, with nothing
    in the slot.  If a stray stands there, the stray is reported where it stands.  If no offset
    ends it, the literal is reported where it begins, and the cursor is closed. -/
theorem literal_of_first_end (h : cur.Fresh loc r) (start : Location) :
    (∀ j, IsLeast {j | EndsAt r j} j → ClosesAt r j →
      ∃ cur', cur.literal start = (.ok ⟨.string, String.ofList (r.take j), start⟩, cur') ∧
        cur'.Fresh (loc.after (r.take (j + 1))) (r.drop (j + 1))) ∧
    (∀ j c, IsLeast {j | EndsAt r j} j → StrayAt r j c →
      (cur.literal start).1 = .error (.lexical
        (.invalidCharacter c (some (loc.after (r.take j))) (some "string literal")))) ∧
    ((∀ j, ¬ EndsAt r j) →
      (cur.literal start).1 = .error (.lexical (.unterminatedString (some start))) ∧
        (cur.literal start).2.isOpen = false) := by
  have hfirst : ∀ j, IsLeast {j | EndsAt r j} j → ∀ i < j, ¬ EndsAt r i := by
    intro j hleast i hlt hi
    exact absurd (hleast.2 hi) (by omega)
  refine ⟨?_, ?_, ?_⟩
  · intro j hleast hj
    exact h.literal_of_closesAt start (hfirst j hleast) hj
  · intro j c hleast hj
    exact h.literal_of_strayAt start (hfirst j hleast) hj
  · exact h.literal_of_endless start

/-- Two backslashes leave the quote behind them alone, one backslash takes it along, and no
    backslash takes a carriage return along. -/
theorem literal_of_first_end_backslashes :
    (∃ cur', (ofText "'a\\\\'b" "f").next.2.literal ⟨"f", 1, 1⟩ =
        (.ok ⟨.string, "a\\\\", ⟨"f", 1, 1⟩⟩, cur') ∧ cur'.Fresh ⟨"f", 1, 6⟩ ['b']) ∧
    ((ofText "'\\'\\\r'" "f").next.2.literal ⟨"f", 1, 1⟩).1 = .error (.lexical
      (.invalidCharacter '\r' (some ⟨"f", 1, 5⟩) (some "string literal"))) ∧
    ((ofText "'\\'\\" "f").next.2.literal ⟨"f", 1, 1⟩).1 =
      .error (.lexical (.unterminatedString (some ⟨"f", 1, 1⟩))) ∧
    ((ofText "'\\'\\" "f").next.2.literal ⟨"f", 1, 1⟩).2.isOpen = false := by
  have hfresh : ∀ r : List Char, (ofText (String.ofList (quote :: r)) "f").next.2.Fresh
      ⟨"f", 1, 2⟩ r := by
    intro r
    have h := (fresh_ofText (String.ofList (quote :: r)) "f").toBefore
    rw [String.toList_ofList] at h
    exact h.fresh_next
  have hleast : ∀ (r : List Char) (j : Nat), EndsAt r j → (∀ i < j, ¬ EndsAt r i) →
      IsLeast {j | EndsAt r j} j := by
    intro r j hj hfirst
    refine ⟨hj, ?_⟩
    intro i hi
    by_contra hlt
    exact hfirst i (by omega) hi
  refine ⟨?_, ?_, ?_⟩
  · exact (literal_of_first_end (hfresh ['a', '\\', '\\', quote, 'b']) ⟨"f", 1, 1⟩).1 3
      (hleast _ 3 (by decide +kernel) (by decide +kernel)) (by decide +kernel)
  · exact (literal_of_first_end (hfresh ['\\', quote, '\\', '\r', quote]) ⟨"f", 1, 1⟩).2.1 3 '\r'
      (hleast _ 3 (by decide +kernel) (by decide +kernel)) (by decide +kernel)
  · refine (literal_of_first_end (hfresh ['\\', quote, '\\']) ⟨"f", 1, 1⟩).2.2 ?_
    intro j
    have hshort : ∀ i < 3, ¬ EndsAt ['\\', quote, '\\'] i := by decide +kernel
    by_cases hj : j < 3
    · exact hshort j hj
    · -- There is no character at the offset.
      have hnone : ['\\', quote, '\\'][j]? = none := by simpa using hj
      rw [endsAt_iff, ClosesAt, hnone]
      simp

end Cursor

end RpalLex
