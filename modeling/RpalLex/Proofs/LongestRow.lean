import RpalLex.Proofs.ExactCursor
import RpalLex.Proofs.Lookahead

/-! # The longest row

  Words, integers, white space and operators are read by one loop, `munch`,
  which goes on as long as a set accepts the characters.  To find out where
  the row ends it reads one character too many and gives it back.

  Here the set is any set, and the cursor any cursor that reads a text
  (`ReadsText`): there may be a character in the slot, even one that never
  stood in the text, and the stream may have been released.  All that matters
  is what is still to come (`upcoming`).

  What the loop takes is said without a loop (`LongestRow`): of all the
  beginnings of what is to come that are made of accepted characters, the
  longest one.

  Main statements: `LongestRow.unique`, `readsText_after` (no session leads a
  cursor away from its text) and `munch_longest`. -/

namespace RpalLex

/-! ## §1. Longest rows -/

/-- The longest beginning of a text that is made of accepted characters.  It may be empty. -/
structure LongestRow (accept : Char → Bool) (r row : List Char) : Prop where
  isPrefix : row <+: r
  accepted : ∀ c ∈ row, accept c = true
  longest : ∀ u, u <+: r → (∀ c ∈ u, accept c = true) → u.length ≤ row.length

namespace LongestRow

variable {accept : Char → Bool} {r row u v : List Char}

/-- Accepted characters in front of one that is not accepted, or of nothing. -/
theorem of_stops (hu : ∀ c ∈ u, accept c = true) (hr : Stops accept r) :
    LongestRow accept (u ++ r) u := by
  refine ⟨List.prefix_append u r, hu, ?_⟩
  intro v hv haccepted
  rcases List.prefix_or_prefix_of_prefix hv (List.prefix_append u r) with hle | ⟨w, rfl⟩
  · exact hle.length_le
  · -- The candidate goes on behind `u`, so its next character is the first of `r`.
    cases w with
    | nil => simp
    | cons c w =>
      obtain ⟨rest, rfl⟩ := (List.prefix_append_right_inj u).1 hv
      have hrejected : accept c = false := hr c rfl
      have hc : accept c = true := haccepted c (by simp)
      rw [hrejected] at hc
      cases hc

theorem unique (hu : LongestRow accept r u) (hv : LongestRow accept r v) : u = v := by
  have hle : u.length ≤ v.length := hv.longest u hu.isPrefix hu.accepted
  have hge : v.length ≤ u.length := hu.longest v hv.isPrefix hv.accepted
  exact (List.prefix_of_prefix_length_le hu.isPrefix hv.isPrefix hle).eq_of_length_le hge

end LongestRow

/-! ## §2. Cursors that read a text -/

namespace Cursor

variable {cur : Cursor} {loc : Location} {r : List Char}

/-- The stream delivers characters until it ends, and no read has failed.  Nothing is said about
    the slot and the place, and unlike a drained cursor this one may have released the stream with
    characters left in it. -/
structure ReadsText (cur : Cursor) : Prop where
  failure_eq : cur.failure = none
  chars : ∃ unread : List Char, cur.stream.script = unread.map .char

/-- All that is still to come when a text is read: the slot, and then the characters in the stream,
    if the cursor still holds it. -/
def upcoming (cur : Cursor) : List Char :=
  cur.slot.toList ++ if cur.isOpen then cur.stream.script.filterMap Read.char? else []

theorem readsText_ofText (text filename : String) : (ofText text filename).ReadsText where
  failure_eq := rfl
  chars := ⟨text.toList, rfl⟩

/-- What is asked of a cursor does not lead it away from its text. -/
theorem kept_readsText : Kept ReadsText where
  next := by
    intro cur h
    obtain ⟨unread, hscript⟩ := h.chars
    have hdelivery := textDelivery h.failure_eq hscript
    generalize cur.next = answer at hdelivery ⊢
    cases hdelivery with
    | held => exact ⟨h.failure_eq, unread, hscript⟩
    | released => exact h
    | char _ _ hrest => exact ⟨h.failure_eq, _, hrest⟩
    | ended _ hend => exact ⟨by simpa using h.failure_eq, [], by simpa using hend⟩
  giveBack := by
    intro c cur h
    rcases giveBack_cases c cur with ⟨-, hback⟩ | ⟨held, -, hback⟩
    · rw [hback]
      exact ⟨h.failure_eq, h.chars⟩
    · rw [hback]
      exact h
  close := fun cur h => ⟨by simpa using h.failure_eq, by simpa using h.chars⟩

/-- A cursor that reads a text stands in front of what is to come. -/
theorem ReadsText.before (h : cur.ReadsText) : cur.Before cur.location cur.upcoming where
  failure_eq := h.failure_eq
  location_eq := rfl
  ahead := by
    obtain ⟨unread, hscript⟩ := h.chars
    refine ⟨_, rfl, ?_, ?_⟩
    · intro hopen
      rw [if_pos hopen, hscript, filterMap_char?]
    · intro hclosed
      rw [if_neg (by simp [hclosed])]

/-- What a cursor stands in front of is what is to come from it. -/
theorem Before.upcoming_eq (h : cur.Before loc r) : cur.upcoming = r := by
  obtain ⟨unread, hr, hopen, hclosed⟩ := h.ahead
  rw [upcoming, hr]
  cases ho : cur.isOpen with
  | true => rw [if_pos rfl, hopen ho, filterMap_char?]
  | false => rw [if_neg Bool.false_ne_true, hclosed ho]

end Cursor

/-- No session on a cursor, with or without lexemes, leads it away from its text. -/
theorem Session.readsText_after (text filename : String) (keepNewline : Bool)
    (ops : List LexemeOp) :
    (after (LexemeOp.perform keepNewline) ops (.ofText text filename)).ReadsText :=
  after_preserves (fun op _ h => Cursor.kept_readsText.performLexeme keepNewline op h) ops
    (Cursor.readsText_ofText text filename)

/-- No session on a lexer with iterators does. -/
theorem Session.Shared.readsText_after (text filename : String) (keepNewline : Bool)
    (ops : List LexerOp) :
    (after LexerOp.perform ops ⟨.ofText text filename keepNewline, []⟩).lexer.cursor.ReadsText :=
  Cursor.kept_readsText.onLexers.after (sound_fresh _) ops (Cursor.readsText_ofText text filename)

/-! ## §3. The loop -/

namespace Cursor

open Alphabet Session

variable {cur : Cursor}

/-- Let a cursor that reads a text be in any state.  Whatever the set is, the loop answers what it
    was given with the longest row of accepted characters behind it, and takes this row and nothing
    else off what is to come.  The cursor then stands behind the row, also if a line feed comes
    next.  The next character waits in the slot; if there is none, the slot is empty and the
    stream has been released. -/
theorem munch_longest (h : cur.ReadsText) (accept : Char → Bool) (text : List Char) :
    ∃ row cur', LongestRow accept cur.upcoming row ∧
      cur.munch accept text = (.ok (text ++ row), cur') ∧
      cur'.ReadsText ∧
      cur.upcoming = row ++ cur'.upcoming ∧
      cur'.location = cur.location.after row ∧
      cur'.slot = cur'.upcoming.head? ∧
      (cur'.upcoming = [] → cur'.isOpen = false) := by
  -- What is to come is cut where the first character stands that is not accepted.
  obtain ⟨row, rest, hsplit, hrow, hrest⟩ := exists_span accept cur.upcoming
  have hbefore := h.before
  rw [hsplit] at hbefore
  obtain ⟨cur', hmunch, hpeeked⟩ := hbefore.munch hrow hrest text
  have hreads : cur'.ReadsText := by
    have hkept := kept_readsText.munch accept text cur h
    rwa [hmunch] at hkept
  have hupcoming : cur'.upcoming = rest := hpeeked.upcoming_eq
  refine ⟨row, cur', ?_, hmunch, hreads, ?_, hpeeked.location_eq, ?_, ?_⟩
  · rw [hsplit]
    exact .of_stops hrow hrest
  · rw [hupcoming, hsplit]
  · rw [hupcoming, hpeeked.slot_eq]
  · rw [hupcoming]
    exact hpeeked.isOpen_eq

/-- After a token the first of two blanks waits in the slot, and the line feed behind them is read
    and given back.  The other cursor was closed while a digit waited that had not been in the
    text, and takes the digit alone. -/
theorem munch_longest_line_feed :
    let blanks := (after LexerOp.perform [.next] ⟨.ofText "ab  \nc" "f" false, []⟩).lexer.cursor
    let digit := after (LexemeOp.perform false)
      [.cursor .next, .cursor (.giveBack '7'), .cursor .close] (.ofText "a1" "f")
    (blanks.ReadsText ∧ blanks.slot = some ' ' ∧ blanks.isOpen = true ∧
      ∃ cur', blanks.munch (· == ' ') ['-'] = (.ok ['-', ' ', ' '], cur') ∧
        cur'.upcoming = ['\n', 'c'] ∧ cur'.location = ⟨"f", 1, 5⟩ ∧ cur'.slot = some '\n') ∧
    (digit.ReadsText ∧ digit.slot = some '7' ∧ digit.isOpen = false ∧
      ∃ cur', digit.munch isDigit ['4'] = (.ok ['4', '7'], cur') ∧
        cur'.upcoming = [] ∧ cur'.location = ⟨"f", 1, 2⟩ ∧ cur'.slot = none ∧
        cur'.isOpen = false) := by
  intro blanks digit
  have hblanks : blanks.ReadsText := Shared.readsText_after "ab  \nc" "f" false [.next]
  have hdigit : digit.ReadsText := readsText_after "a1" "f" false _
  have htwo : blanks.upcoming = [' ', ' '] ++ ['\n', 'c'] := by decide +kernel
  have hone : digit.upcoming = ['7'] ++ [] := by decide +kernel
  refine ⟨⟨hblanks, by decide +kernel, by decide +kernel, ?_⟩,
    hdigit, by decide +kernel, by decide +kernel, ?_⟩
  · obtain ⟨row, cur', hlongest, hmunch, -, hupcoming, hlocation, hslot, -⟩ :=
      munch_longest hblanks (· == ' ') ['-']
    rw [htwo] at hlongest hupcoming
    obtain rfl : row = [' ', ' '] := hlongest.unique (.of_stops (by simp) (by simp [Stops]))
    have hrest : cur'.upcoming = ['\n', 'c'] := (List.append_cancel_left hupcoming).symm
    refine ⟨cur', hmunch, hrest, ?_, ?_⟩
    · rw [hlocation]
      decide +kernel
    · rw [hslot, hrest]
      rfl
  · obtain ⟨row, cur', hlongest, hmunch, -, hupcoming, hlocation, hslot, hclosed⟩ :=
      munch_longest hdigit isDigit ['4']
    rw [hone] at hlongest hupcoming
    have hseven : ∀ c ∈ ['7'], isDigit c = true := List.forall_mem_singleton.2 (by decide)
    obtain rfl : row = ['7'] := hlongest.unique (.of_stops hseven (by simp [Stops]))
    have hrest : cur'.upcoming = [] := (List.append_cancel_left hupcoming).symm
    refine ⟨cur', hmunch, hrest, ?_, ?_, hclosed hrest⟩
    · rw [hlocation]
      decide +kernel
    · rw [hslot, hrest]
      rfl

end Cursor

end RpalLex
