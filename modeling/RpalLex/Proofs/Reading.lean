import RpalLex.Lexeme
import RpalLex.Proofs.Grammar
import RpalLex.Proofs.TextCursor

/-! # Reading lexemes off a text

  The loop `gather` meets a text one character at a time.  Over a text that a
  rule extends by all the way, it only moves the cursor (§1); then the end of
  the text or the next verdict decides (§2).  What remains for each rule is to
  say which texts it extends by: rows of accepted characters, lines of
  comments, open string literals (§3).

  Main statements: `Before.gather_extendAll` (the run lemma of the loop) and
  `Before.munch` (a row is taken whole, and the character after it waits in
  the slot). -/

namespace RpalLex

open Alphabet

variable {σ α : Type}

/-! ## §1. The loop over a text -/

/-- The state of a rule after it has taken all of a text; `none` if it does not take it all. -/
def Rule.extendAll (rule : Rule σ α) : σ → List Char → Option σ
  | s, [] => some s
  | s, c :: cs =>
    match rule.onChar s c with
    | .extend s' => rule.extendAll s' cs
    | _ => none

theorem Rule.extendAll_cons_eq_some {rule : Rule σ α} {s s' : σ} {c : Char} {cs : List Char}
    (h : rule.extendAll s (c :: cs) = some s') :
    ∃ t, rule.onChar s c = .extend t ∧ rule.extendAll t cs = some s' := by
  unfold Rule.extendAll at h
  split at h
  · next t ht => exact ⟨t, ht, h⟩
  · cases h

namespace Cursor

variable {rule : Rule σ α} {s s' : σ} {cur : Cursor} {loc : Location} {u r : List Char}
  {c : Char} {a : α}

theorem Before.gather_extendAll (h : cur.Before loc (u ++ r))
    (hs : rule.extendAll s u = some s') :
    ∃ cur', gather rule s cur = gather rule s' cur' ∧ cur'.Before (loc.after u) r := by
  induction u generalizing s cur loc with
  | nil =>
    obtain rfl : s = s' := Option.some.inj hs
    exact ⟨cur, rfl, h⟩
  | cons c u ih =>
    obtain ⟨t, ht, hs⟩ := Rule.extendAll_cons_eq_some hs
    obtain ⟨cur1, hnext, hcur1, -⟩ := Before.next_cons (r := u ++ r) h
    obtain ⟨cur', hgather, hcur'⟩ := ih hcur1.toBefore hs
    refine ⟨cur', ?_, hcur'⟩
    rw [gather_extend hnext ht, hgather]

/-! ## §2. How a lexeme ends -/

theorem Before.gather_end (h : cur.Before loc u) (hs : rule.extendAll s u = some s') :
    ∃ cur', gather rule s cur = ((rule.onEnd s').mapError .lexical, cur') ∧
      cur'.Peeked (loc.after u) [] := by
  obtain ⟨cur1, hgather, hcur1⟩ := Before.gather_extendAll (r := []) (by simpa using h) hs
  obtain ⟨cur', hnext, hcur'⟩ := hcur1.next_nil
  refine ⟨cur', ?_, hcur'⟩
  rw [hgather, Cursor.gather_end hnext]

theorem Before.gather_finish (h : cur.Before loc (u ++ c :: r))
    (hs : rule.extendAll s u = some s') (hv : rule.onChar s' c = .finish a) :
    ∃ cur', gather rule s cur = (.ok a, cur') ∧ cur'.Fresh (loc.after (u ++ [c])) r := by
  obtain ⟨cur1, hgather, hcur1⟩ := h.gather_extendAll hs
  obtain ⟨cur', hnext, hcur', -⟩ := hcur1.next_cons
  refine ⟨cur', ?_, ?_⟩
  · rw [hgather, Cursor.gather_finish hnext hv]
  · rw [Location.after_append]
    exact hcur'

theorem Before.gather_stopBefore (h : cur.Before loc (u ++ c :: r))
    (hs : rule.extendAll s u = some s') (hv : rule.onChar s' c = .stopBefore a) :
    ∃ cur', gather rule s cur = (.ok a, cur') ∧ cur'.Peeked (loc.after u) (c :: r) := by
  obtain ⟨cur1, hgather, hcur1⟩ := h.gather_extendAll hs
  obtain ⟨cur2, hnext, -, cur', hback, hcur'⟩ := hcur1.next_cons
  refine ⟨cur', ?_, hcur'⟩
  rw [hgather, Cursor.gather_stopBefore hnext hv, stopBefore, hback]
  rfl

theorem Before.gather_reject {context : Option String} (h : cur.Before loc (u ++ c :: r))
    (hs : rule.extendAll s u = some s') (hv : rule.onChar s' c = .reject context) :
    (gather rule s cur).1 =
      .error (.lexical (.invalidCharacter c (some (loc.after u)) context)) := by
  obtain ⟨cur1, hgather, hcur1⟩ := h.gather_extendAll hs
  obtain ⟨cur2, hnext, -⟩ := hcur1.next_cons
  rw [hgather, Cursor.gather_reject hnext hv, hcur1.location_eq]

/-! ## §3. The rules of RPAL -/

theorem extendAll_munchRule {accept : Char → Bool} (hu : ∀ c ∈ u, accept c = true)
    (taken : List Char) : (munchRule accept).extendAll taken u = some (u.reverse ++ taken) := by
  induction u generalizing taken with
  | nil => rfl
  | cons c u ih =>
    have hc : accept c = true := hu c (by simp)
    rw [List.reverse_cons, List.append_assoc]
    simp only [Rule.extendAll, munchRule, hc, if_true]
    exact ih (fun d hd => hu d (by simp [hd])) (c :: taken)

theorem extendAll_commentRule (keepNewline : Bool) (hu : ∀ c ∈ u, isCommentBody c = true)
    (taken : List Char) :
    (commentRule keepNewline).extendAll taken u = some (u.reverse ++ taken) := by
  induction u generalizing taken with
  | nil => rfl
  | cons c u ih =>
    have hc : isCommentBody c = true := hu c (by simp)
    have hne : c ≠ '\n' := by
      rintro rfl
      exact absurd hc (by decide)
    rw [List.reverse_cons, List.append_assoc]
    simp only [Rule.extendAll, commentRule, hc, hne, if_true, if_false]
    exact ih (fun d hd => hu d (by simp [hd])) (c :: taken)

theorem onChar_literalRule_of_nextPending {start : Location} {b : List Char}
    {pending pending' : Bool} (h : nextPending pending c = some pending') :
    (literalRule start).onChar ⟨b, pending⟩ c = .extend ⟨c :: b, pending'⟩ := by
  unfold nextPending at h
  unfold literalRule
  show (if (pending && isEscapable c) = true then _ else _) = _
  split at h
  · next hesc =>
    obtain rfl : false = pending' := Option.some.inj h
    rw [if_pos hesc]
  · next hesc =>
    rw [if_neg hesc]
    split at h
    · next hbody =>
      -- The quote would end the literal, but it is no character of its body.
      have hne : c ≠ quote := by
        intro hq
        rw [hq, isStringBody_quote] at hbody
        cases hbody
      obtain rfl : (c == '\\') = pending' := Option.some.inj h
      rw [if_neg hne, if_pos hbody]
    · cases h

theorem extendAll_literalRule (start : Location) {pending pending' : Bool}
    (hu : u.foldlM nextPending pending = some pending') (b : List Char) :
    (literalRule start).extendAll ⟨b, pending⟩ u = some ⟨u.reverse ++ b, pending'⟩ := by
  induction u generalizing pending b with
  | nil =>
    obtain rfl : pending = pending' := by simpa using hu
    rfl
  | cons c u ih =>
    rw [List.foldlM_cons] at hu
    obtain ⟨next, hc, hu⟩ := Option.bind_eq_some_iff.1 hu
    rw [List.reverse_cons, List.append_assoc]
    simp only [Rule.extendAll, onChar_literalRule_of_nextPending hc]
    exact ih hu (c :: b)

/-- A row of accepted characters is taken whole, and the cursor looks at what follows it. -/
theorem Before.munch {accept : Char → Bool} (h : cur.Before loc (u ++ r))
    (hu : ∀ c ∈ u, accept c = true) (hr : Stops accept r) (text : List Char) :
    ∃ cur', cur.munch accept text = (.ok (text ++ u), cur') ∧ cur'.Peeked (loc.after u) r := by
  have hs := extendAll_munchRule hu text.reverse
  have htext : (u.reverse ++ text.reverse).reverse = text ++ u := by simp
  cases r with
  | nil =>
    -- There is nothing to look at, and the state is what was taken.
    obtain ⟨cur', hgather, hcur'⟩ := Before.gather_end (by simpa using h) hs
    refine ⟨cur', ?_, hcur'⟩
    rw [Cursor.munch, hgather, ← htext]
    rfl
  | cons c r =>
    have hc : accept c = false := hr c rfl
    obtain ⟨cur', hgather, hcur'⟩ := h.gather_stopBefore hs (a := text ++ u)
      (by simp [munchRule, hc])
    exact ⟨cur', hgather, hcur'⟩

end Cursor

end RpalLex
