import RpalLex.Cursor
import RpalLex.Proofs.Position

/-! # Cursors in front of a text

  Seen from a lexeme, a cursor over a text is a location and a list of
  characters that are still to come.  Where these characters are, in the slot
  or in the stream, does not matter: `Before` forgets it.  Two refinements
  remember what a lexeme leaves behind.

  * `Fresh`: the slot is empty.
  * `Peeked`: the next character has been read and waits in the slot, or
    there is none and the cursor is closed.

  Main statements: `Before.next_nil` and `Before.next_cons` (what `next` does,
  and that giving a character back undoes it), and `Drained.next` and
  `Drained.giveBack` (only the end of its text closes a cursor, so what is in
  the slot and in the stream is really all that is left). -/

namespace RpalLex.Cursor

/-! ## §1. Three views of a cursor -/

/-- The cursor has not failed, stands at a location, and a text is all that will come from it:
    the slot first, and then the stream if the cursor still holds it. -/
structure Before (cur : Cursor) (loc : Location) (r : List Char) : Prop where
  failure_eq : cur.failure = none
  location_eq : cur.location = loc
  ahead : ∃ unread, r = cur.slot.toList ++ unread ∧
    (cur.isOpen = true → cur.stream.script = unread.map .char) ∧
    (cur.isOpen = false → unread = [])

/-- Nothing waits in the slot. -/
structure Fresh (cur : Cursor) (loc : Location) (r : List Char) : Prop
    extends cur.Before loc r where
  slot_eq : cur.slot = none

/-- The next character waits in the slot; if there is none, its absence was noticed. -/
structure Peeked (cur : Cursor) (loc : Location) (r : List Char) : Prop
    extends cur.Before loc r where
  slot_eq : cur.slot = r.head?
  isOpen_eq : r = [] → cur.isOpen = false

variable {cur cur' : Cursor} {loc : Location} {c : Char} {r : List Char}

theorem fresh_ofText (text filename : String) :
    (ofText text filename).Fresh (.start filename) text.toList where
  failure_eq := rfl
  location_eq := rfl
  ahead := ⟨text.toList, rfl, fun _ => rfl, fun h => by cases h⟩
  slot_eq := rfl

theorem Peeked.fresh_of_nil (h : cur.Peeked loc []) : cur.Fresh loc [] :=
  { h.toBefore with slot_eq := h.slot_eq }

/-! ## §2. Reading -/

/-- At the end of the text the cursor says so, and closes if it has not yet. -/
theorem Before.next_nil (h : cur.Before loc []) :
    ∃ cur', cur.next = (.ok none, cur') ∧ cur'.Peeked loc [] := by
  obtain ⟨unread, hr, hopen, -⟩ := h.ahead
  obtain ⟨hslot, rfl⟩ := List.append_eq_nil_iff.1 hr.symm
  rw [Option.toList_eq_nil_iff] at hslot
  cases ho : cur.isOpen with
  | false =>
    refine ⟨cur, by simp [next, hslot, h.failure_eq, ho], ?_⟩
    exact { h with slot_eq := hslot, isOpen_eq := fun _ => ho }
  | true =>
    have hread : cur.stream.read = (.endOfText, cur.stream.read.2) := by
      simp [Stream.read, hopen ho]
    refine ⟨close { cur with stream := cur.stream.read.2 }, ?_, ?_⟩
    · simp only [next, hslot, h.failure_eq, ho, if_true, readStream]
      rw [hread]
    · exact {
        failure_eq := by simp [h.failure_eq]
        location_eq := by simp [location, ← h.location_eq]
        ahead := ⟨[], by simp [hslot], by simp, by simp⟩
        slot_eq := by simp [hslot]
        isOpen_eq := by simp }

/-- A character that is there is delivered.  Afterwards it can be given back, which leaves the
    cursor where it was, with the character in the slot. -/
theorem Before.next_cons (h : cur.Before loc (c :: r)) :
    ∃ cur', cur.next = (.ok (some c), cur') ∧ cur'.Fresh (loc.advance c) r ∧
      ∃ cur'', cur'.giveBack c = (.ok (), cur'') ∧ cur''.Peeked loc (c :: r) := by
  obtain ⟨unread, hr, hopen, hclosed⟩ := h.ahead
  -- The character comes from the slot or from the stream; either way it is gone afterwards.
  obtain ⟨stream, hnext, hopen', hclosed'⟩ : ∃ stream,
      cur.next = (.ok (some c),
        { cur with stream, slot := none, place := cur.place.advance c }) ∧
      (cur.isOpen = true → stream.script = r.map .char) ∧ (cur.isOpen = false → r = []) := by
    cases hslot : cur.slot with
    | some d =>
      simp only [hslot, Option.toList_some, List.singleton_append, List.cons.injEq] at hr
      obtain ⟨rfl, rfl⟩ := hr
      exact ⟨cur.stream, next_of_slot_some hslot, hopen, hclosed⟩
    | none =>
      simp only [hslot, Option.toList_none, List.nil_append] at hr
      subst hr
      have ho : cur.isOpen = true := by
        cases ho : cur.isOpen with
        | false => exact absurd (hclosed ho) (by simp)
        | true => rfl
      have hread : cur.stream.read =
          (.char c, ⟨r.map .char, .read (.char c) :: cur.stream.history⟩) := by
        simp [Stream.read, hopen ho]
      refine ⟨cur.stream.read.2, ?_, fun _ => by rw [hread], fun hc => by simp [ho] at hc⟩
      simp only [next, hslot, h.failure_eq, ho, if_true, readStream]
      rw [hread]
  refine ⟨_, hnext, ?_, _, giveBack_of_slot_none rfl c, ?_⟩
  · exact {
      failure_eq := h.failure_eq
      location_eq := by rw [← h.location_eq]; exact Place.inFile_advance _ _ _
      ahead := ⟨r, rfl, hopen', hclosed'⟩
      slot_eq := rfl }
  · exact {
      failure_eq := h.failure_eq
      location_eq := by rw [← h.location_eq]; exact Place.inFile_retreat_advance _ _ _
      ahead := ⟨r, rfl, hopen', hclosed'⟩
      slot_eq := rfl
      isOpen_eq := by simp }

/-! ## §3. Only the end of the text closes a cursor -/

/-- The stream holds characters only, and it is held open as long as there are any. -/
structure Drained (cur : Cursor) : Prop where
  failure_eq : cur.failure = none
  chars : ∃ unread : List Char, cur.stream.script = unread.map .char
  script_eq : cur.isOpen = false → cur.stream.script = []

theorem drained_ofText (text filename : String) : (ofText text filename).Drained where
  failure_eq := rfl
  chars := ⟨text.toList, rfl⟩
  script_eq := fun h => by cases h

theorem Drained.giveBack (h : cur.Drained) (c : Char) : (cur.giveBack c).2.Drained := by
  unfold Cursor.giveBack
  split
  · exact h
  · exact { h with }

theorem Drained.next (h : cur.Drained) : cur.next.2.Drained := by
  obtain ⟨unread, hscript⟩ := h.chars
  unfold Cursor.next
  split
  · exact { h with }
  · simp only [h.failure_eq]
    split
    · next ho =>
      unfold readStream Stream.read
      cases unread with
      | nil => exact {
          failure_eq := by simp [hscript, h.failure_eq]
          chars := ⟨[], by simp [hscript]⟩
          script_eq := by simp [hscript] }
      | cons c unread => exact {
          failure_eq := by simp [hscript, h.failure_eq]
          chars := ⟨unread, by simp [hscript]⟩
          script_eq := by simp [hscript, ho] }
    · exact h

/-- The slot and the stream hold all that is left. -/
theorem Drained.eq_slot_append (hd : cur.Drained) (h : cur.Before loc r) :
    ∃ unread : List Char, cur.stream.script = unread.map .char ∧ r = cur.slot.toList ++ unread := by
  obtain ⟨unread, hr, hopen, hclosed⟩ := h.ahead
  refine ⟨unread, ?_, hr⟩
  cases ho : cur.isOpen with
  | true => exact hopen ho
  | false => rw [hd.script_eq ho, hclosed ho]; rfl

end RpalLex.Cursor
