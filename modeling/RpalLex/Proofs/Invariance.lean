import RpalLex.Proofs.Delivery
import RpalLex.Proofs.Runs

/-! # What reading preserves

  The lexeme functions touch a cursor through `next` and `giveBack` only.  So
  a property that these two preserve is preserved by every lexeme, and by
  every token that a lexer delivers, whatever the text or the stream.

  Main statements: `Preserved.nextToken` (one token) and `Preserved.delivers`
  (a run). -/

namespace RpalLex

open Alphabet

namespace Cursor

/-- Reading a character and giving one back preserve the property. -/
structure Preserved (P : Cursor → Prop) : Prop where
  next : ∀ cur : Cursor, P cur → P cur.next.2
  giveBack : ∀ (c : Char) (cur : Cursor), P cur → P (cur.giveBack c).2

@[simp] theorem sawEnd_close (cur : Cursor) : cur.close.stream.sawEnd = cur.stream.sawEnd := by
  unfold close
  split
  · simp [Stream.close, Stream.sawEnd]
  · rfl

/-- The end of a text that was seen once is not forgotten. -/
theorem preserved_sawEnd : Preserved fun cur => cur.stream.sawEnd = true where
  next := by
    intro cur h
    have hmem : .read .endOfText ∈ cur.stream.history := by simpa [Stream.sawEnd] using h
    have hread : ∀ {r : Read} {stream : Stream}, cur.stream.read = (r, stream) →
        stream.sawEnd = true := by
      intro r stream hr
      simp [Stream.sawEnd, Stream.history_of_read hr, hmem]
    have hdelivery := cur.delivery
    generalize cur.next = r at hdelivery ⊢
    cases hdelivery with
    | held => exact h
    | failedBefore => exact h
    | released => exact h
    | char _ _ _ hr => exact hread hr
    | ended _ _ _ hr =>
      rw [sawEnd_close]
      exact hread hr
    | failed _ _ _ hr =>
      rw [sawEnd_close]
      exact hread hr
    | interrupted _ _ _ hr => exact hread hr
  giveBack := by
    intro c cur h
    rcases giveBack_cases c cur with ⟨-, hback⟩ | ⟨held, -, hback⟩
    · rw [hback]
      exact h
    · rw [hback]
      exact h

theorem preserved_drained : Preserved Drained where
  next := fun _ h => h.next
  giveBack := fun c _ h => h.giveBack c

namespace Preserved

variable {P : Cursor → Prop} {σ α : Type}

theorem gather (hP : Preserved P) (rule : Rule σ α) (s : σ) (cur : Cursor) (h : P cur) :
    P (gather rule s cur).2 := by
  -- What one `next` preserves, for every answer it gives.
  have hread : ∀ {cur cur' : Cursor} {a : Except Problem (Option Char)},
      cur.next = (a, cur') → P cur → P cur' := by
    intro cur cur' a hnext hcur
    have := hP.next cur hcur
    rwa [hnext] at this
  fun_induction Cursor.gather rule s cur with
  | case1 s cur p cur' hnext => exact hread hnext h
  | case2 s cur cur' hnext => exact hread hnext h
  | case3 s cur c cur' hnext s' hv ih => exact ih (hread hnext h)
  | case4 s cur c cur' hnext a hv => exact hread hnext h
  | case5 s cur c cur' hnext a hv => exact hP.giveBack c cur' (hread hnext h)
  | case6 s cur c cur' hnext context hv => exact hread hnext h

theorem munch (hP : Preserved P) (accept : Char → Bool) (text : List Char) (cur : Cursor)
    (h : P cur) : P (cur.munch accept text).2 :=
  hP.gather (munchRule accept) text.reverse cur h

theorem operator (hP : Preserved P) (keepNewline : Bool) (first : Char) (start : Location)
    (cur : Cursor) (h : P cur) : P (cur.operator keepNewline first start).2 := by
  have hnext := hP.next cur h
  unfold Cursor.operator
  split
  · next heq => rwa [heq] at hnext
  · next heq => rwa [heq] at hnext
  · next second cur' heq =>
    rw [heq] at hnext
    split
    · exact hP.gather (commentRule keepNewline) ['/', '/'] cur' hnext
    · have hback := hP.giveBack second cur' hnext
      split
      · next heq' => rwa [heq'] at hback
      · next cur'' heq' =>
        rw [heq'] at hback
        exact hP.munch isOperatorSymbol [first] cur'' hback

theorem lexeme (hP : Preserved P) (keepNewline : Bool) (k : StartClass) (first : Char)
    (start : Location) (cur : Cursor) (h : P cur) :
    P (cur.lexeme keepNewline k first start).2 := by
  cases k with
  | letter => exact hP.munch isIdentifierChar [first] cur h
  | digit => exact hP.munch isDigit [first] cur h
  | operator => exact hP.operator keepNewline first start cur h
  | quote => exact hP.gather (literalRule start) ⟨[], false⟩ cur h
  | space => exact hP.munch isBlank [first] cur h
  | punctuation =>
    show P (cur.mark first start).2
    unfold Cursor.mark
    split
    · exact h
    · exact h

theorem nextToken (hP : Preserved P) (keepNewline : Bool) (cur : Cursor) (h : P cur) :
    P (cur.nextToken keepNewline).2 := by
  have hnext := hP.next cur h
  unfold Cursor.nextToken
  split
  · next heq => rwa [heq] at hnext
  · next heq => rwa [heq] at hnext
  · next c cur' heq =>
    rw [heq] at hnext
    split
    · exact hP.lexeme keepNewline _ c _ cur' hnext
    · exact hnext

theorem next_token (hP : Preserved P) {lx lx' : Lexer} {t : Token}
    (hnext : lx.next = (.ok (some t), lx')) (h : P lx.cursor) : P lx'.cursor := by
  have htoken := hP.nextToken lx.keepNewline lx.cursor h
  unfold Lexer.next at hnext
  split at hnext
  · cases hnext
  · split at hnext
    · cases hnext
    · next heq =>
      rw [heq] at htoken
      cases hnext
      exact htoken
    · cases hnext
    · cases hnext

/-- Whatever the answer of a call is: a lexical error closes the cursor, and no other answer does
    more than to read. -/
theorem afterCall (hP : Preserved P) (hclose : ∀ cur : Cursor, P cur → P cur.close) (lx : Lexer)
    (h : P lx.cursor) : P lx.next.2.cursor := by
  have htoken := hP.nextToken lx.keepNewline lx.cursor h
  unfold Lexer.next
  split
  · exact h
  · split
    · next heq => rwa [heq] at htoken
    · next heq => rwa [heq] at htoken
    · next heq =>
      rw [heq] at htoken
      exact hclose _ htoken
    · next heq => rwa [heq] at htoken

theorem delivers (hP : Preserved P) {lx lx' : Lexer} {ts : List Token}
    (hrun : lx.Delivers ts lx') (h : P lx.cursor) : P lx'.cursor := by
  induction hrun with
  | nil lx => exact h
  | cons hnext _ ih => exact ih (hP.next_token hnext h)

end Preserved

end Cursor

end RpalLex
