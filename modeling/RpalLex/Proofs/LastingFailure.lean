import RpalLex.Proofs.ExactCursor
import RpalLex.Proofs.ReadFailure

/-! # Failures that last

  A read fails for good, or it is interrupted, and nothing else can go wrong
  with a stream.  The history of a stream tells which of its reads failed; a
  cursor remembers the first of them.

  The invariant (`Truthful`) says that what the cursor remembers agrees with
  the history, and that a cursor that failed, or came to the end of its text,
  has released its stream.  From it follows that a lexical error always goes
  back to a read that failed, and that a cursor without such a read reports
  the end once it is released.

  Main statements: `kept_truthful` and `failure_lasts`. -/

namespace RpalLex

/-! ## §1. What was read from a stream -/

namespace Stream

/-- A read gave `r` on the way from one state of a stream to another. -/
def ReadBetween (before now : Stream) (r : Read) : Prop :=
  ∃ events, now.history = events ++ before.history ∧ .read r ∈ events

/-- A read failed for good. -/
def HasFailed (s : Stream) : Prop :=
  ∃ f, .read (.fault f) ∈ s.history ∧ f.kind.endsReading = true

variable {s s' : Stream} {r r' : Read} {f : Fault}

theorem readBetween_iff {events : List Event} (h : s'.history = events ++ s.history) :
    ReadBetween s s' r ↔ .read r ∈ events := by
  constructor
  · rintro ⟨events', heq, hmem⟩
    rw [h] at heq
    rwa [List.append_cancel_right heq]
  · intro hmem
    exact ⟨events, h, hmem⟩

theorem not_readBetween_self : ¬ ReadBetween s s r := by
  intro h
  exact List.not_mem_nil ((readBetween_iff (List.nil_append s.history).symm).1 h)

theorem readBetween_of_read (h : s.read = (r, s')) : ReadBetween s s' r' ↔ r' = r := by
  have hhistory : s'.history = [.read r] ++ s.history := history_of_read h
  rw [readBetween_iff hhistory, List.mem_singleton, Event.read.injEq]

theorem readBetween_close : ReadBetween s s'.close r ↔ ReadBetween s s' r := by
  constructor
  · rintro ⟨events, heq, hmem⟩
    cases events with
    | nil => cases hmem
    | cons event events =>
      obtain ⟨rfl, hold⟩ := List.cons.inj heq
      refine ⟨events, hold, ?_⟩
      simpa using hmem
  · rintro ⟨events, heq, hmem⟩
    exact ⟨.close :: events, congrArg (List.cons _) heq, List.mem_cons_of_mem _ hmem⟩

theorem hasFailed_close : s.close.HasFailed ↔ s.HasFailed := by
  simp [HasFailed, close]

theorem hasFailed_of_read (h : s.read = (r, s')) :
    s'.HasFailed ↔ (∃ f, r = .fault f ∧ f.kind.endsReading = true) ∨ s.HasFailed := by
  unfold HasFailed
  rw [history_of_read h]
  constructor
  · rintro ⟨f, hmem, hf⟩
    rcases List.mem_cons.1 hmem with heq | hold
    · cases heq
      exact .inl ⟨f, rfl, hf⟩
    · exact .inr ⟨f, hold, hf⟩
  · rintro (⟨f, rfl, hf⟩ | ⟨f, hold, hf⟩)
    · exact ⟨f, List.mem_cons_self, hf⟩
    · exact ⟨f, List.mem_cons_of_mem _ hold, hf⟩

theorem sawEnd_of_read (h : s.read = (r, s')) :
    s'.sawEnd = true ↔ r = .endOfText ∨ s.sawEnd = true := by
  unfold sawEnd
  rw [history_of_read h, List.contains_cons, Bool.or_eq_true, beq_iff_eq, Event.read.injEq]
  exact or_congr_left eq_comm

end Stream

/-! ## §2. What a cursor remembers -/

namespace Cursor

variable {cur : Cursor}

theorem hasFailed_close : cur.close.stream.HasFailed ↔ cur.stream.HasFailed := by
  unfold close
  split
  · exact Stream.hasFailed_close
  · exact Iff.rfl

theorem readBetween_close {s : Stream} {r : Read} :
    s.ReadBetween cur.close.stream r ↔ s.ReadBetween cur.stream r := by
  unfold close
  split
  · exact Stream.readBetween_close
  · exact Iff.rfl

/-- The cursor remembers a failure exactly if a read failed for good, and it holds no stream from
    which nothing more can come. -/
structure Truthful (cur : Cursor) : Prop where
  failure_iff : cur.failure ≠ none ↔ cur.stream.HasFailed
  failed_closed : cur.failure ≠ none → cur.isOpen = false
  ended_closed : cur.stream.sawEnd = true → cur.isOpen = false

theorem truthful_fresh (script : List Read) (filename : String) :
    Truthful { filename, stream := { script } } where
  failure_iff := by simp [Stream.HasFailed]
  failed_closed := by simp
  ended_closed := by simp [Stream.sawEnd]

theorem Truthful.close (h : cur.Truthful) : cur.close.Truthful where
  failure_iff := by rw [failure_close, hasFailed_close, h.failure_iff]
  failed_closed := fun _ => isOpen_close cur
  ended_closed := fun _ => isOpen_close cur

theorem Truthful.next (h : cur.Truthful) : cur.next.2.Truthful := by
  have hdelivery := cur.delivery
  generalize cur.next = answer at hdelivery ⊢
  cases hdelivery with
  | held => exact { h with }
  | failedBefore => exact h
  | released => exact h
  | char _ hfailure hopen hread =>
    constructor
    · show cur.failure ≠ none ↔ _
      rw [Stream.hasFailed_of_read hread, h.failure_iff]
      simp
    · intro hfailed
      exact absurd hfailure hfailed
    · intro hend
      rw [Stream.sawEnd_of_read hread] at hend
      exact h.ended_closed (by simpa using hend)
  | ended _ hfailure _ hread =>
    constructor
    · rw [failure_close, hasFailed_close]
      show cur.failure ≠ none ↔ _
      rw [Stream.hasFailed_of_read hread, h.failure_iff]
      simp
    · exact fun _ => isOpen_close _
    · exact fun _ => isOpen_close _
  | @failed f _ _ _ _ hread hf =>
    constructor
    · rw [failure_close, hasFailed_close, Stream.hasFailed_of_read hread]
      simp [hf]
    · exact fun _ => isOpen_close _
    · exact fun _ => isOpen_close _
  | interrupted _ hfailure hopen hread hf =>
    constructor
    · show cur.failure ≠ none ↔ _
      rw [Stream.hasFailed_of_read hread, h.failure_iff]
      simp [hf]
    · intro hfailed
      exact absurd hfailure hfailed
    · intro hend
      rw [Stream.sawEnd_of_read hread] at hend
      exact h.ended_closed (by simpa using hend)

theorem Truthful.giveBack (h : cur.Truthful) (c : Char) : (cur.giveBack c).2.Truthful := by
  rcases giveBack_cases c cur with ⟨-, hback⟩ | ⟨held, -, hback⟩
  · rw [hback]
    exact { h with }
  · rw [hback]
    exact h

theorem kept_truthful : Kept Truthful where
  next := fun _ h => h.next
  giveBack := fun c _ h => h.giveBack c
  close := fun _ h => h.close

/-- The failure that is remembered is the first one, and it stays. -/
theorem kept_failure (e : Failure) : Kept fun cur => cur.failure = some e where
  next := by
    intro cur h
    have hdelivery := cur.delivery
    generalize cur.next = answer at hdelivery ⊢
    cases hdelivery with
    | held => exact h
    | failedBefore => exact h
    | released => exact h
    | char => exact h
    | ended => rw [failure_close]; exact h
    | failed _ hfailure => exact absurd (h.symm.trans hfailure) (by simp)
    | interrupted => exact h
  giveBack := by
    intro c cur h
    rcases giveBack_cases c cur with ⟨-, hback⟩ | ⟨held, -, hback⟩
    · rw [hback]
      exact h
    · rw [hback]
      exact h
  close := by
    intro cur h
    rw [failure_close]
    exact h

/-! ## §3. One operation -/

/-- Only an empty slot, no failure and a stream that is held let `next` read. -/
theorem of_readBetween {r : Read} (h : cur.stream.ReadBetween cur.next.2.stream r) :
    cur.slot = none ∧ cur.failure = none ∧ cur.isOpen = true ∧
      ∃ stream, cur.stream.read = (r, stream) := by
  have hreads : ∀ {r' : Read} {stream : Stream}, cur.slot = none → cur.failure = none →
      cur.isOpen = true → cur.stream.read = (r', stream) → cur.stream.ReadBetween stream r →
      cur.slot = none ∧ cur.failure = none ∧ cur.isOpen = true ∧
        ∃ stream, cur.stream.read = (r, stream) := by
    intro r' stream hslot hfailure hopen hread hbetween
    obtain rfl := (Stream.readBetween_of_read hread).1 hbetween
    exact ⟨hslot, hfailure, hopen, stream, hread⟩
  have hdelivery := cur.delivery
  generalize cur.next = answer at hdelivery h
  cases hdelivery with
  | held => exact absurd h Stream.not_readBetween_self
  | failedBefore => exact absurd h Stream.not_readBetween_self
  | released => exact absurd h Stream.not_readBetween_self
  | char hslot hfailure hopen hread => exact hreads hslot hfailure hopen hread h
  | ended hslot hfailure hopen hread =>
    exact hreads hslot hfailure hopen hread (readBetween_close.1 h)
  | failed hslot hfailure hopen hread =>
    exact hreads hslot hfailure hopen hread (readBetween_close.1 h)
  | interrupted hslot hfailure hopen hread => exact hreads hslot hfailure hopen hread h

end Cursor

namespace Session

variable {op : CursorOp} {cur : Cursor} {r : Read} {f : Fault} {e : LexError} {p : Problem}

theorem CursorOp.eq_next_of_readBetween
    (h : cur.stream.ReadBetween (op.perform cur).2.stream r) : op = .next := by
  cases op with
  | next => rfl
  | giveBack c =>
    have hsame : ((CursorOp.giveBack c).perform cur).2.stream = cur.stream := by
      show (cur.giveBack c).2.stream = cur.stream
      rcases Cursor.giveBack_cases c cur with ⟨-, hback⟩ | ⟨held, -, hback⟩
      · rw [hback]
      · rw [hback]
    rw [hsame] at h
    exact absurd h Stream.not_readBetween_self
  | close => exact absurd (Cursor.readBetween_close.1 h) Stream.not_readBetween_self
  | location => exact absurd h Stream.not_readBetween_self
  | enter => exact absurd h Stream.not_readBetween_self
  | leave => exact absurd (Cursor.readBetween_close.1 h) Stream.not_readBetween_self

/-- A read that fails for good is reported, remembered, and releases the stream. -/
theorem CursorOp.perform_of_failed
    (h : cur.stream.ReadBetween (op.perform cur).2.stream (.fault f))
    (hf : f.kind.endsReading = true) :
    (op.perform cur).1 = .error (.lexical (readFailure cur.location f)) ∧
      (op.perform cur).2.failure = some (cur.failureOf f) := by
  obtain rfl := eq_next_of_readBetween h
  obtain ⟨hslot, hfailure, hopen, stream, hread⟩ := Cursor.of_readBetween h
  have hfailed : cur.next = (.error (.lexical (readFailure cur.location f)),
      Cursor.close { cur with stream, failure := some (cur.failureOf f) }) := by
    rw [Cursor.next_of_isOpen hslot hfailure hopen]
    simp only [Cursor.readStream, hread, hf, if_true]
    rfl
  simp [perform, hfailed]

/-- An interrupted read is reported, and touches nothing but the stream. -/
theorem CursorOp.perform_of_interrupted
    (h : cur.stream.ReadBetween (op.perform cur).2.stream (.fault f))
    (hf : f.kind.endsReading = false) :
    (op.perform cur).1 = .error (.fault f) := by
  obtain rfl := eq_next_of_readBetween h
  obtain ⟨hslot, hfailure, hopen, stream, hread⟩ := Cursor.of_readBetween h
  have hinterrupted : cur.next = (.error (.fault f), { cur with stream }) := by
    rw [Cursor.next_of_isOpen hslot hfailure hopen]
    simp [Cursor.readStream, hread, hf]
  simp [perform, hinterrupted]

/-- What an operation can fail with: a failure, now or earlier, or anything else, which leaves the
    cursor as it was. -/
theorem CursorOp.perform_of_error (h : (op.perform cur).1 = .error p) :
    (op = .next ∧ cur.slot = none ∧ (∃ e, p = .lexical e) ∧ (op.perform cur).2.failure ≠ none) ∨
    ((∀ e, p ≠ .lexical e) ∧
      (op.perform cur).2 = { cur with stream := (op.perform cur).2.stream }) := by
  cases op with
  | next =>
    have hnext : cur.next.1 = .error p := Cursor.error_of_mapAnswer h
    have hdelivery := cur.delivery
    show (_ ∧ _ ∧ _ ∧ cur.next.2.failure ≠ none) ∨
      (_ ∧ cur.next.2 = { cur with stream := cur.next.2.stream })
    generalize cur.next = answer at hdelivery hnext ⊢
    cases hdelivery with
    | held => cases hnext
    | failedBefore hslot hfailure =>
      cases hnext
      exact .inl ⟨rfl, hslot, ⟨_, rfl⟩, by simp [hfailure]⟩
    | released => cases hnext
    | char => cases hnext
    | ended => cases hnext
    | failed hslot =>
      cases hnext
      exact .inl ⟨rfl, hslot, ⟨_, rfl⟩, by simp⟩
    | interrupted =>
      cases hnext
      exact .inr ⟨by simp, rfl⟩
  | giveBack c =>
    rcases Cursor.giveBack_cases c cur with ⟨-, hback⟩ | ⟨held, -, hback⟩
    · simp [perform, hback] at h
    · have hp : (cur.giveBack c).1 = .error p := Cursor.error_of_mapAnswer h
      rw [hback] at hp
      cases hp
      refine .inr ⟨by simp, ?_⟩
      rw [perform, hback]
      rfl
  | close => cases h
  | location => cases h
  | enter => cases h
  | leave => cases h

/-! ## §4. The whole session -/

/-- Once a read has failed for good, and whatever is done then, the cursor is closed, delivers a
    character that waits in the slot, and otherwise fails again with the message and the location
    of the failing read, and with the same text.

    No lexical error comes about in another way: a cursor none of whose reads failed for good
    reports the end when it was closed or came to the end.  Every other problem passes through and
    touches nothing but the stream, and so does an interrupted read. -/
theorem failure_lasts (script : List Read) (filename : String) (ops : List CursorOp) :
    let cur := after CursorOp.perform ops { filename, stream := { script } }
    (∀ (op : CursorOp) (f : Fault), cur.stream.ReadBetween (op.perform cur).2.stream (.fault f) →
      f.kind.endsReading = true →
      let e := readFailure cur.location f
      (op.perform cur).1 = .error (.lexical e) ∧
      ∀ later : List CursorOp,
        let cur' := after CursorOp.perform later (op.perform cur).2
        let e' := LexError.unreadable e.message e.location none (some .earlierFailure)
        cur'.isOpen = false ∧
        (∀ c, cur'.slot = some c → (CursorOp.next.perform cur').1 = .ok (.char (some c))) ∧
        (cur'.slot = none → CursorOp.next.perform cur' = (.error (.lexical e'), cur')) ∧
        e'.text = e.text) ∧
    (∀ (op : CursorOp) (e : LexError), (op.perform cur).1 = .error (.lexical e) →
      op = .next ∧ cur.slot = none ∧ (op.perform cur).2.stream.HasFailed) ∧
    (¬ cur.stream.HasFailed →
      ops.any CursorOp.closes = true ∨ cur.stream.sawEnd = true →
      cur.slot = none → CursorOp.next.perform cur = (.ok (.char none), cur)) ∧
    (∀ (op : CursorOp) (f : Fault), cur.stream.ReadBetween (op.perform cur).2.stream (.fault f) →
      f.kind.endsReading = false → (op.perform cur).1 = .error (.fault f)) ∧
    (∀ (op : CursorOp) (p : Problem), (op.perform cur).1 = .error p → (∀ e, p ≠ .lexical e) →
      (op.perform cur).2 = { cur with stream := (op.perform cur).2.stream }) := by
  intro cur
  have htruthful : cur.Truthful :=
    Cursor.kept_truthful.after ops (Cursor.truthful_fresh script filename)
  refine ⟨?_, ?_, ?_, ?_, ?_⟩
  · intro op f hread hf e
    obtain ⟨hreply, hfailure⟩ := CursorOp.perform_of_failed hread hf
    refine ⟨hreply, ?_⟩
    intro later cur' e'
    have hlasts : cur'.failure = some (cur.failureOf f) :=
      (Cursor.kept_failure _).after later hfailure
    have htruthful' : cur'.Truthful :=
      Cursor.kept_truthful.after later (Cursor.kept_truthful.perform op htruthful)
    refine ⟨htruthful'.failed_closed (by simp [hlasts]), ?_, ?_, ?_⟩
    · intro c hslot
      simp [CursorOp.perform, Cursor.next_of_slot_some hslot]
    · intro hslot
      simp only [CursorOp.perform, Cursor.next, hslot, hlasts, Outcome.mapAnswer_error]
      rfl
    · rfl
  · intro op e hreply
    rcases CursorOp.perform_of_error hreply with ⟨hop, hslot, -, hfailed⟩ | ⟨hother, -⟩
    · exact ⟨hop, hslot, (Cursor.kept_truthful.perform op htruthful).failure_iff.1 hfailed⟩
    · exact absurd rfl (hother e)
  · -- Nothing failed, so nothing is remembered, and what was released or ended is closed.
    intro hhealthy hend hslot
    have hfailure : cur.failure = none := by
      by_contra hfailed
      exact hhealthy (htruthful.failure_iff.1 hfailed)
    have hclosed : cur.isOpen = false := by
      rcases hend with hops | hend
      · exact isOpen_after_of_closes ops _ (.inr hops)
      · exact htruthful.ended_closed hend
    simp [CursorOp.perform, Cursor.next, hslot, hfailure, hclosed]
  · intro op f hread hf
    exact CursorOp.perform_of_interrupted hread hf
  · intro op p hreply hother
    rcases CursorOp.perform_of_error hreply with ⟨-, -, ⟨e, rfl⟩, -⟩ | ⟨-, hsame⟩
    · exact absurd rfl (hother e)
    · exact hsame

/-- A line feed that was not the last character moves the cursor back, and the failure is still
    reported where it happened; a text that ended is not a failure; an interruption passes. -/
theorem failure_lasts_line_feed :
    let script : List Read :=
      [.char 'a', .char '\n', .char 'b', .fault ⟨.transfer, "disk"⟩, .char 'c']
    let failed := after CursorOp.perform [.next, .next, .next, .next, .giveBack '\n', .next]
      { filename := "f", stream := { script } }
    let ended := after CursorOp.perform [.next, .next]
      { filename := "f", stream := { script := [.char 'a'] } }
    let interrupted : Cursor :=
      { filename := "f", stream := { script := [.fault ⟨.runtime, "stop"⟩] } }
    failed.location = ⟨"f", 2, 1⟩ ∧ failed.isOpen = false ∧
    CursorOp.next.perform failed = (.error (.lexical
      (.unreadable "cannot read 'f': disk" (some ⟨"f", 2, 2⟩) none (some .earlierFailure))),
      failed) ∧
    CursorOp.next.perform ended = (.ok (.char none), ended) ∧
    (CursorOp.next.perform interrupted).1 = .error (.fault ⟨.runtime, "stop"⟩) ∧
    (CursorOp.next.perform interrupted).2.isOpen = true := by
  intro script failed ended interrupted
  refine ⟨by decide +kernel, ?_⟩
  obtain ⟨hclosed, hagain⟩ : failed.isOpen = false ∧ CursorOp.next.perform failed = _ := by
    have hfails := (failure_lasts script "f" [.next, .next, .next]).1 .next ⟨.transfer, "disk"⟩
    obtain ⟨-, hlater⟩ := hfails ⟨[.close, .read (.fault _)], rfl, by simp⟩ rfl
    obtain ⟨hclosed, -, hagain, -⟩ := hlater [.giveBack '\n', .next]
    exact ⟨hclosed, hagain rfl⟩
  have hended : CursorOp.next.perform ended = (.ok (.char none), ended) := by
    refine (failure_lasts [.char 'a'] "f" [.next, .next]).2.2.1 ?_ (.inr rfl) rfl
    rintro ⟨f, hmem, -⟩
    simp [Cursor.next, Cursor.readStream, Cursor.close, Stream.read, Stream.close,
      CursorOp.perform] at hmem
  obtain ⟨-, -, -, hpasses, hsame⟩ := failure_lasts [.fault ⟨.runtime, "stop"⟩] "f" []
  have hreply := hpasses .next ⟨.runtime, "stop"⟩ ⟨[.read (.fault _)], rfl, by simp⟩ rfl
  have hstate := hsame .next _ hreply (by simp)
  exact ⟨hclosed, hagain, hended, hreply, congrArg Cursor.isOpen hstate⟩

end Session

end RpalLex
