import RpalLex.Cursor

/-! # What one step does to a cursor

  Giving a character back does one of two things, and so does closing.  What
  `next` does is told apart in seven cases, by what it finds: a full slot, a
  failure, a released stream, or one of the four kinds of reads.

  Main statement: `delivery` (what `next` does). -/

namespace RpalLex

theorem Stream.history_of_read {stream stream' : Stream} {r : Read}
    (h : stream.read = (r, stream')) : stream'.history = .read r :: stream.history := by
  unfold Stream.read at h
  split at h
  · cases h
    rfl
  · cases h
    rfl

/-- What a read gives, other than the end, is taken off the script. -/
theorem Stream.script_of_read {stream stream' : Stream} {r : Read}
    (h : stream.read = (r, stream')) (hr : r ≠ .endOfText) :
    stream.script = r :: stream'.script := by
  unfold Stream.read at h
  split at h
  · cases h
    exact absurd rfl hr
  · next hscript =>
    cases h
    exact hscript

namespace Cursor

variable {cur cur' : Cursor}

/-- What `next` does, by what it finds. -/
inductive Delivery (cur : Cursor) : Outcome Cursor (Option Char) → Prop where
  /-- The slot is full. -/
  | held {c : Char} : cur.slot = some c →
      Delivery cur (.ok (some c), { cur with slot := none, place := cur.place.advance c })
  /-- A read failed before. -/
  | failedBefore {e : Failure} : cur.slot = none → cur.failure = some e →
      Delivery cur (.error (.lexical (e.toError .earlierFailure)), cur)
  /-- The stream has been released. -/
  | released : cur.slot = none → cur.failure = none → cur.isOpen = false →
      Delivery cur (.ok none, cur)
  | char {c : Char} {stream : Stream} : cur.slot = none → cur.failure = none →
      cur.isOpen = true → cur.stream.read = (.char c, stream) →
      Delivery cur (.ok (some c), { cur with stream, place := cur.place.advance c })
  | ended {stream : Stream} : cur.slot = none → cur.failure = none →
      cur.isOpen = true → cur.stream.read = (.endOfText, stream) →
      Delivery cur (.ok none, close { cur with stream })
  | failed {f : Fault} {stream : Stream} : cur.slot = none → cur.failure = none →
      cur.isOpen = true → cur.stream.read = (.fault f, stream) → f.kind.endsReading = true →
      Delivery cur (.error (.lexical ((cur.failureOf f).toError (.fault f.kind))),
        close { cur with stream, failure := some (cur.failureOf f) })
  | interrupted {f : Fault} {stream : Stream} : cur.slot = none → cur.failure = none →
      cur.isOpen = true → cur.stream.read = (.fault f, stream) → f.kind.endsReading = false →
      Delivery cur (.error (.fault f), { cur with stream })

/-- Only an empty slot, no failure and a stream that is held lead to a read. -/
theorem next_of_isOpen (hslot : cur.slot = none) (hfailure : cur.failure = none)
    (hopen : cur.isOpen = true) : cur.next = cur.readStream := by
  simp only [next, hslot, hfailure, hopen, if_true]

theorem delivery (cur : Cursor) : cur.Delivery cur.next := by
  cases hslot : cur.slot with
  | some c =>
    rw [next_of_slot_some hslot]
    exact .held hslot
  | none =>
    cases hfailure : cur.failure with
    | some e =>
      have hnext : cur.next = (.error (.lexical (e.toError .earlierFailure)), cur) := by
        simp [next, hslot, hfailure]
      rw [hnext]
      exact .failedBefore hslot hfailure
    | none =>
      cases hopen : cur.isOpen with
      | false =>
        have hnext : cur.next = (.ok none, cur) := by simp [next, hslot, hfailure, hopen]
        rw [hnext]
        exact .released hslot hfailure hopen
      | true =>
        rw [next_of_isOpen hslot hfailure hopen, readStream]
        split
        · next hread => exact .char hslot hfailure hopen hread
        · next hread => exact .ended hslot hfailure hopen hread
        · next hread =>
          split
          · next hf => exact .failed hslot hfailure hopen hread hf
          · next hf => exact .interrupted hslot hfailure hopen hread (by simpa using hf)

theorem slot_of_next {answer : Except Problem (Option Char)}
    (h : cur.next = (answer, cur')) : cur'.slot = none := by
  have hslot := slot_next cur
  rwa [h] at hslot

/-- A character is given back into an empty slot, or it is refused. -/
theorem giveBack_cases (c : Char) (cur : Cursor) :
    (cur.slot = none ∧
      cur.giveBack c = (.ok (), { cur with slot := some c, place := cur.place.retreat c })) ∨
    ∃ held, cur.slot = some held ∧ cur.giveBack c = (.error (.slotFull held c), cur) := by
  cases hslot : cur.slot with
  | none => exact .inl ⟨rfl, giveBack_of_slot_none hslot c⟩
  | some held => exact .inr ⟨held, rfl, by simp [giveBack, hslot]⟩

end Cursor

end RpalLex
