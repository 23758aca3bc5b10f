import RpalLex.Stream

/-! # Cursors

  A cursor goes forward through a stream, one character at a time, and takes
  at most one character back.

  State: the stream with the file's name, whether the cursor still holds the
  stream open, the character that was given back (the *slot*), the place of
  the next character, and the failure of a read if there was one.

  Operations:

  * `next` delivers the slot if it is full.  After a failure it fails again;
    once closed it reports the end; otherwise it reads.  The end of the text
    and a failure close the cursor, an interruption changes nothing.
  * `giveBack` fills the slot and steps back; a full slot refuses.
  * `close` releases the stream, once.  The slot survives.

  Main statements: `next_giveBack` (what was given back comes next, and then
  all is as if it had never been given back) and `size_next_lt` (every
  character that is delivered leaves less to come). -/

namespace RpalLex

/-- A read that failed: what is said about it, and where the cursor stood. -/
structure Cursor.Failure where
  message : String
  location : Location
deriving DecidableEq, Repr

/-- A position in a stream of characters. -/
structure Cursor where
  filename : String
  stream : Stream
  /-- Does the cursor still hold the stream open? -/
  isOpen : Bool := true
  /-- The character that was given back. -/
  slot : Option Char := none
  /-- Where the next character stands. -/
  place : Place := .start
  failure : Option Cursor.Failure := none
deriving DecidableEq, Repr

namespace Cursor

/-! ## §1. Operations -/

/-- A cursor at the beginning of a text. -/
def ofText (text filename : String) : Cursor := { filename, stream := .ofText text }

/-- The location of the next character. -/
def location (cur : Cursor) : Location := cur.place.inFile cur.filename

/-- Releases the stream if it is still held. -/
def close (cur : Cursor) : Cursor :=
  if cur.isOpen then { cur with isOpen := false, stream := cur.stream.close } else cur

/-- What a read that fails for good says. -/
def failureOf (cur : Cursor) (f : Fault) : Failure :=
  ⟨"cannot read '" ++ cur.filename ++ "': " ++ f.message, cur.location⟩

/-- A failed read as a lexical error. -/
def Failure.toError (e : Failure) (cause : ReadCause) : LexError :=
  .unreadable e.message (some e.location) none (some cause)

/-- Reads the stream of an open cursor. -/
def readStream (cur : Cursor) : Outcome Cursor (Option Char) :=
  match cur.stream.read with
  | (.char c, s) => (.ok (some c), { cur with stream := s, place := cur.place.advance c })
  | (.endOfText, s) => (.ok none, close { cur with stream := s })
  | (.fault f, s) =>
    if f.kind.endsReading then
      (.error (.lexical ((cur.failureOf f).toError (.fault f.kind))),
        close { cur with stream := s, failure := some (cur.failureOf f) })
    else (.error (.fault f), { cur with stream := s })

/-- Delivers the next character, or `none` at the end of the text. -/
def next (cur : Cursor) : Outcome Cursor (Option Char) :=
  match cur.slot with
  | some c => (.ok (some c), { cur with slot := none, place := cur.place.advance c })
  | none =>
    match cur.failure with
    | some e => (.error (.lexical (e.toError .earlierFailure)), cur)
    | none => if cur.isOpen then cur.readStream else (.ok none, cur)

/-- Takes a character back. -/
def giveBack (c : Char) (cur : Cursor) : Outcome Cursor Unit :=
  match cur.slot with
  | some held => (.error (.slotFull held c), cur)
  | none => (.ok (), { cur with slot := some c, place := cur.place.retreat c })

/-- How much may still come: the slot and the rest of the script. -/
def size (cur : Cursor) : Nat := cur.slot.toList.length + cur.stream.script.length

/-! ## §2. What the operations leave alone -/

@[simp] theorem isOpen_close (cur : Cursor) : cur.close.isOpen = false := by
  unfold close; split <;> simp_all

@[simp] theorem slot_close (cur : Cursor) : cur.close.slot = cur.slot := by
  unfold close; split <;> rfl

@[simp] theorem place_close (cur : Cursor) : cur.close.place = cur.place := by
  unfold close; split <;> rfl

@[simp] theorem failure_close (cur : Cursor) : cur.close.failure = cur.failure := by
  unfold close; split <;> rfl

@[simp] theorem filename_close (cur : Cursor) : cur.close.filename = cur.filename := by
  unfold close; split <;> rfl

@[simp] theorem location_close (cur : Cursor) : cur.close.location = cur.location := by
  simp [location]

@[simp] theorem script_close (cur : Cursor) : cur.close.stream.script = cur.stream.script := by
  unfold close; split <;> rfl

@[simp] theorem size_close (cur : Cursor) : cur.close.size = cur.size := by
  unfold close; split <;> rfl

theorem close_of_not_isOpen {cur : Cursor} (h : cur.isOpen = false) : cur.close = cur := by
  simp [close, h]

@[simp] theorem close_close (cur : Cursor) : cur.close.close = cur.close :=
  close_of_not_isOpen (isOpen_close cur)

/-! ## §3. Giving back and delivering -/

theorem giveBack_of_slot_none {cur : Cursor} (h : cur.slot = none) (c : Char) :
    cur.giveBack c = (.ok (), { cur with slot := some c, place := cur.place.retreat c }) := by
  simp [giveBack, h]

theorem next_of_slot_some {cur : Cursor} {c : Char} (h : cur.slot = some c) :
    cur.next = (.ok (some c), { cur with slot := none, place := cur.place.advance c }) := by
  simp [next, h]

theorem slot_next (cur : Cursor) : cur.next.2.slot = none := by
  unfold next readStream
  split
  · rfl
  · split
    · assumption
    · split
      · split
        · assumption
        · simp [*]
        · split <;> simp [*]
      · assumption

/-- A character that is given back right after it was delivered comes again, and after that the
    cursor is what it was. -/
theorem next_giveBack {cur cur' : Cursor} {c : Char} (h : cur.next = (.ok (some c), cur')) :
    (cur'.giveBack c).2.next = (.ok (some c), cur') := by
  have hs : cur'.slot = none := by have := slot_next cur; rwa [h] at this
  have hp : (cur'.place.retreat c).advance c = cur'.place := by
    unfold next readStream at h
    split at h
    · simp only [Prod.mk.injEq, Except.ok.injEq, Option.some.injEq] at h
      obtain ⟨rfl, rfl⟩ := h
      exact Place.advance_retreat_advance _ _
    · split at h
      · simp at h
      · split at h
        · split at h
          · simp only [Prod.mk.injEq, Except.ok.injEq, Option.some.injEq] at h
            obtain ⟨rfl, rfl⟩ := h
            exact Place.advance_retreat_advance _ _
          · simp at h
          · split at h <;> simp at h
        · simp at h
  rw [giveBack_of_slot_none hs, next_of_slot_some rfl]
  simp only [hp]
  cases cur'
  simp_all

/-! ## §4. Sizes -/

theorem size_next_lt {cur cur' : Cursor} {c : Char} (h : cur.next = (.ok (some c), cur')) :
    cur'.size < cur.size := by
  unfold next readStream at h
  split at h
  · next hc =>
    simp only [Prod.mk.injEq] at h
    simp [← h.2, size, hc]
  · next hn =>
    split at h
    · simp at h
    · split at h
      · split at h
        · next hr =>
          simp only [Prod.mk.injEq] at h
          unfold Stream.read at hr
          split at hr
          · simp at hr
          · next hscript =>
            simp only [Prod.mk.injEq] at hr
            simp [← h.2, size, hn, hscript, ← hr.2]
        · simp at h
        · split at h <;> simp at h
      · simp at h

theorem size_next_le (cur : Cursor) : cur.next.2.size ≤ cur.size := by
  unfold next readStream
  split
  · next hc => simp [size, hc]
  · next hn =>
    split
    · exact Nat.le_refl _
    · split
      · have hs : cur.stream.read.2.script.length ≤ cur.stream.script.length := by
          unfold Stream.read; split <;> simp [*]
        split
        · next hr => rw [hr] at hs; simpa [size, hn] using hs
        · next hr => rw [hr] at hs; simpa [size, hn] using hs
        · next hr =>
          rw [hr] at hs
          split <;> simpa [size, hn] using hs
      · exact Nat.le_refl _

theorem size_giveBack_le (cur : Cursor) (c : Char) :
    (cur.giveBack c).2.size ≤ cur.size + 1 := by
  unfold giveBack
  split
  · simp
  · next h => simp only [size, h, Option.toList_some, Option.toList_none, List.length]; omega

end Cursor

end RpalLex
