import RpalLex.Proofs.Kept

/-! # Cursors are exact

  A cursor over a text is asked for characters and gets some of them back, in
  any order.  What has been *passed* is what was delivered, less what was
  given back.

  As long as only the character passed last is given back, the cursor stands
  right behind what has been passed (`Exact`): in the text and in line and
  column.  The column in front of a line feed is not computed but remembered,
  and there is room for one; so the invariant also says that the character
  passed last can be taken back, as long as the slot is empty.

  Whatever is given back, the line is that of the line feeds delivered less
  those given back.

  Main statements: `Exact.perform` and `Exact.after` (an operation, a
  session), `line_after` and `cursor_exact`. -/

namespace RpalLex

/-! ## §1. One step over a text -/

namespace Cursor

/-- What `next` does over a stream of characters that has not failed, by what it finds. -/
inductive TextDelivery (cur : Cursor) : List Char → Outcome Cursor (Option Char) → Prop where
  | held {c : Char} {unread : List Char} : cur.slot = some c →
      TextDelivery cur unread
        (.ok (some c), { cur with slot := none, place := cur.place.advance c })
  | released {unread : List Char} : cur.slot = none → cur.isOpen = false →
      TextDelivery cur unread (.ok none, cur)
  | char {c : Char} {unread : List Char} {stream : Stream} : cur.slot = none →
      cur.isOpen = true → stream.script = unread.map .char →
      TextDelivery cur (c :: unread)
        (.ok (some c), { cur with stream, place := cur.place.advance c })
  | ended {stream : Stream} : cur.slot = none → stream.script = [] →
      TextDelivery cur [] (.ok none, close { cur with stream })

theorem textDelivery {cur : Cursor} {unread : List Char} (hfailure : cur.failure = none)
    (hscript : cur.stream.script = unread.map .char) : cur.TextDelivery unread cur.next := by
  -- The next read is that of the next character; after the last one it is the end.
  have hread : ∀ {r : Read} {stream : Stream}, cur.stream.read = (r, stream) →
      (unread = [] ∧ r = .endOfText ∧ stream.script = []) ∨
      ∃ c rest, unread = c :: rest ∧ r = .char c ∧ stream.script = rest.map .char := by
    intro r stream hr
    unfold Stream.read at hr
    cases unread with
    | nil =>
      rw [hscript] at hr
      cases hr
      exact .inl ⟨rfl, rfl, rfl⟩
    | cons c rest =>
      rw [hscript] at hr
      cases hr
      exact .inr ⟨c, rest, rfl, rfl, rfl⟩
  have hdelivery := cur.delivery
  generalize cur.next = r at hdelivery ⊢
  cases hdelivery with
  | held hslot => exact .held hslot
  | failedBefore _ hfailed => exact absurd (hfailure.symm.trans hfailed) (by simp)
  | released hslot _ hclosed => exact .released hslot hclosed
  | char hslot _ hopen hr =>
    rcases hread hr with ⟨-, heq, -⟩ | ⟨c, rest, rfl, heq, hrest⟩
    · cases heq
    · cases heq
      exact .char hslot hopen hrest
  | ended hslot _ _ hr =>
    rcases hread hr with ⟨rfl, -, hend⟩ | ⟨c, rest, -, heq, -⟩
    · exact .ended hslot hend
    · cases heq
  | failed _ _ _ hr =>
    rcases hread hr with ⟨-, heq, -⟩ | ⟨c, rest, -, heq, -⟩
    · cases heq
    · cases heq
  | interrupted _ _ _ hr =>
    rcases hread hr with ⟨-, heq, -⟩ | ⟨c, rest, -, heq, -⟩
    · cases heq
    · cases heq

end Cursor

namespace Place

theorem line_advance (p : Place) (c : Char) :
    (p.advance c).line = p.line + [c].count '\n' := by
  by_cases h : c = '\n'
  · simp [Place.advance, h]
  · simp [Place.advance, h]

theorem line_retreat (p : Place) (c : Char) :
    (p.retreat c).line = p.line - [c].count '\n' := by
  by_cases h : c = '\n'
  · simp [Place.retreat, h]
  · simp [Place.retreat, h]

end Place

namespace Session

variable {op : CursorOp} {ops : List CursorOp} {cur : Cursor} {cs text : List Char}
  {filename : String} {c : Char}

/-! ## §2. What has been passed -/

/-- The character that an operation delivers. -/
def CursorOp.delivered? : CursorOp → Cursor → Option Char
  | next, cur =>
    match cur.next.1 with
    | .ok c => c
    | .error _ => none
  | _, _ => none

/-- The character that an operation gives back, if it is not refused. -/
def CursorOp.givenBack? : CursorOp → Cursor → Option Char
  | giveBack c, cur =>
    match (cur.giveBack c).1 with
    | .ok _ => some c
    | .error _ => none
  | _, _ => none

/-- The characters that the operations deliver, or give back, in their order. -/
def charsAlong (char? : CursorOp → Cursor → Option Char) : List CursorOp → Cursor → List Char
  | [], _ => []
  | op :: ops, cur => (char? op cur).toList ++ charsAlong char? ops (op.perform cur).2

/-- What has been passed after an operation: a character that is delivered is added at the end, and
    when one is given back the last one goes. -/
def CursorOp.passed (op : CursorOp) (cur : Cursor) (cs : List Char) : List Char :=
  match op.delivered? cur, op.givenBack? cur with
  | some c, _ => cs ++ [c]
  | none, some _ => cs.dropLast
  | none, none => cs

/-- What has been passed after the operations. -/
def passedAlong : List CursorOp → Cursor → List Char → List Char
  | [], _, cs => cs
  | op :: ops, cur, cs => passedAlong ops (op.perform cur).2 (op.passed cur cs)

/-- Into an empty slot only the character passed last is given back. -/
def CursorOp.GivesLastBack : CursorOp → Cursor → List Char → Prop
  | giveBack c, cur, cs => cur.slot = none → cs.getLast? = some c
  | _, _, _ => True

/-- So it is with every operation. -/
def GiveLastBack : List CursorOp → Cursor → List Char → Prop
  | [], _, _ => True
  | op :: ops, cur, cs =>
    op.GivesLastBack cur cs ∧ GiveLastBack ops (op.perform cur).2 (op.passed cur cs)

instance : ∀ (op : CursorOp) (cur : Cursor) (cs : List Char), Decidable (op.GivesLastBack cur cs)
  | .giveBack c, cur, cs => inferInstanceAs (Decidable (cur.slot = none → cs.getLast? = some c))
  | .next, _, _ | .close, _, _ | .location, _, _ | .enter, _, _ | .leave, _, _ =>
    inferInstanceAs (Decidable True)

instance decidableGiveLastBack : ∀ ops cur cs, Decidable (GiveLastBack ops cur cs)
  | [], _, _ => inferInstanceAs (Decidable True)
  | op :: ops, cur, cs =>
    have := decidableGiveLastBack ops (op.perform cur).2 (op.passed cur cs)
    inferInstanceAs (Decidable (op.GivesLastBack cur cs ∧
      GiveLastBack ops (op.perform cur).2 (op.passed cur cs)))

/-! ## §3. Behind what has been passed -/

/-- The cursor has passed the beginning `cs` of a text, and nothing else. -/
structure Exact (text : List Char) (filename : String) (cs : List Char) (cur : Cursor) : Prop where
  failure_eq : cur.failure = none
  location_eq : cur.location = .behind filename cs
  text_eq : ∃ unread : List Char, cur.stream.script = unread.map .char ∧
    text = cs ++ cur.slot.toList ++ unread
  /-- The last character can be taken back. -/
  retreat_eq : cur.slot = none → ∀ before c, cs = before ++ [c] →
    (cur.place.retreat c).inFile filename = .behind filename before

theorem exact_ofText (text filename : String) :
    Exact text.toList filename [] (.ofText text filename) where
  failure_eq := rfl
  location_eq := rfl
  text_eq := ⟨text.toList, rfl, rfl⟩
  retreat_eq := fun _ before c h => by simp at h

/-- A character that is delivered has been passed, wherever it came from. -/
theorem Exact.advance (h : Exact text filename cs cur) {stream : Stream} {slot : Option Char}
    {unread : List Char} (hslot : slot = none) (hscript : stream.script = unread.map .char)
    (htext : text = cs ++ c :: unread) :
    Exact text filename (cs ++ [c])
      { cur with stream, slot, place := cur.place.advance c } where
  failure_eq := h.failure_eq
  location_eq := by
    rw [Location.behind_concat, ← h.location_eq]
    exact Place.inFile_advance _ _ _
  text_eq := ⟨unread, hscript, by simp [hslot, htext]⟩
  retreat_eq := by
    intro _ before d hsplit
    obtain ⟨rfl, hd⟩ := List.append_inj' hsplit rfl
    cases hd
    have hfile : cur.filename = filename := congrArg Location.filename h.location_eq
    rw [← h.location_eq, ← hfile]
    exact Place.inFile_retreat_advance _ _ _

theorem Exact.close (h : Exact text filename cs cur) : Exact text filename cs cur.close where
  failure_eq := by rw [Cursor.failure_close, h.failure_eq]
  location_eq := by simpa [Cursor.location] using h.location_eq
  text_eq := by simpa using h.text_eq
  retreat_eq := by simpa using h.retreat_eq

theorem Exact.next (h : Exact text filename cs cur) :
    Exact text filename (CursorOp.next.passed cur cs) cur.next.2 := by
  obtain ⟨unread, hscript, htext⟩ := h.text_eq
  have hdelivery := Cursor.textDelivery h.failure_eq hscript
  simp only [CursorOp.passed, CursorOp.givenBack?, CursorOp.delivered?]
  generalize cur.next = r at hdelivery ⊢
  cases hdelivery with
  | held hslot => exact h.advance rfl hscript (by simpa [hslot] using htext)
  | released => simpa using h
  | char hslot _ hrest => exact h.advance hslot hrest (by simpa [hslot] using htext)
  | @ended stream hslot hend =>
    have hsame : Exact text filename cs { cur with stream } :=
      { h with text_eq := ⟨[], hend, htext⟩ }
    simpa using hsame.close

theorem Exact.giveBack (h : Exact text filename cs cur)
    (hlast : cur.slot = none → cs.getLast? = some c) :
    Exact text filename ((CursorOp.giveBack c).passed cur cs) (cur.giveBack c).2 := by
  simp only [CursorOp.passed, CursorOp.givenBack?, CursorOp.delivered?]
  rcases Cursor.giveBack_cases c cur with ⟨hslot, hback⟩ | ⟨held, -, hback⟩
  · obtain ⟨before, rfl⟩ := List.getLast?_eq_some_iff.1 (hlast hslot)
    obtain ⟨unread, hscript, htext⟩ := h.text_eq
    have hfile : cur.filename = filename := congrArg Location.filename h.location_eq
    rw [hback]
    simp only [List.dropLast_concat]
    exact {
      failure_eq := h.failure_eq
      -- The remembered column is needed here, and only here.
      location_eq := by
        rw [← h.retreat_eq hslot before c rfl, ← hfile]
        rfl
      text_eq := ⟨unread, hscript, by simpa [hslot] using htext⟩
      retreat_eq := fun hnone => by cases hnone }
  · rw [hback]
    simpa using h

theorem Exact.perform (h : Exact text filename cs cur) (hop : op.GivesLastBack cur cs) :
    Exact text filename (op.passed cur cs) (op.perform cur).2 := by
  cases op with
  | next => exact h.next
  | giveBack c => exact h.giveBack hop
  | close => exact h.close
  | location => exact h
  | enter => exact h
  | leave => exact h.close

theorem Exact.after (h : Exact text filename cs cur) (hops : GiveLastBack ops cur cs) :
    Exact text filename (passedAlong ops cur cs) (after CursorOp.perform ops cur) := by
  induction ops generalizing cur cs with
  | nil => exact h
  | cons op ops ih => exact ih (h.perform hops.1) hops.2

/-! ## §4. The end -/

/-- A cursor that was closed stays closed. -/
theorem isOpen_after_of_closes (ops : List CursorOp) (cur : Cursor)
    (h : cur.isOpen = false ∨ ops.any CursorOp.closes = true) :
    (after CursorOp.perform ops cur).isOpen = false := by
  induction ops generalizing cur with
  | nil => simpa using h
  | cons op ops ih =>
    apply ih
    rw [List.any_cons, Bool.or_eq_true] at h
    rcases h with hclosed | hop | hops
    · exact .inl (Cursor.kept_not_isOpen.perform op hclosed)
    · exact .inl (CursorOp.isOpen_perform_of_closes hop cur)
    · exact .inr hops

/-- Unless it is closed, a cursor over a text holds the stream until there is nothing left. -/
theorem drained_after (ops : List CursorOp) (hcur : cur.Drained)
    (hops : ops.any CursorOp.closes = false) : (after CursorOp.perform ops cur).Drained := by
  induction ops generalizing cur with
  | nil => exact hcur
  | cons op ops ih =>
    rw [List.any_cons, Bool.or_eq_false_iff] at hops
    refine ih ?_ hops.2
    cases op with
    | next => exact hcur.next
    | giveBack c => exact hcur.giveBack c
    | close => cases hops.1
    | location => exact hcur
    | enter => exact hcur
    | leave => cases hops.1

/-- When the end is reported, nothing waits in the slot, and the stream was released or has come to
    its end. -/
theorem Exact.of_next_none (h : Exact text filename cs cur) (hnext : cur.next.1 = .ok none) :
    cur.slot = none ∧ (cur.isOpen = false ∨ cs = text) := by
  obtain ⟨unread, hscript, htext⟩ := h.text_eq
  have hdelivery := Cursor.textDelivery h.failure_eq hscript
  generalize cur.next = r at hdelivery hnext
  cases hdelivery with
  | held => cases hnext
  | released hslot hclosed => exact ⟨hslot, .inl hclosed⟩
  | char => cases hnext
  | ended hslot => exact ⟨hslot, .inr (by simpa [hslot] using htext.symm)⟩

/-- Once the stream is released, or all of the text has been passed, only the slot is left. -/
theorem Exact.next_eq_slot (h : Exact text filename cs cur)
    (hend : cur.isOpen = false ∨ cs = text) : cur.next.1 = .ok cur.slot := by
  obtain ⟨unread, hscript, htext⟩ := h.text_eq
  have hdelivery := Cursor.textDelivery h.failure_eq hscript
  generalize cur.next = r at hdelivery
  cases hdelivery with
  | held hslot => exact congrArg _ hslot.symm
  | released hslot => exact congrArg _ hslot.symm
  | char hslot hopen =>
    rcases hend with hclosed | rfl
    · exact absurd (hopen.symm.trans hclosed) (by simp)
    · simp [hslot] at htext
  | ended hslot => exact congrArg _ hslot.symm

/-! ## §5. Lines -/

/-- Whatever the stream does and whatever is given back. -/
theorem line_perform (op : CursorOp) (cur : Cursor) :
    (op.perform cur).2.place.line = cur.place.line + (op.delivered? cur).toList.count '\n' -
      (op.givenBack? cur).toList.count '\n' := by
  cases op with
  | next =>
    have hdelivery := cur.delivery
    simp only [CursorOp.perform, Outcome.state_mapAnswer, CursorOp.delivered?, CursorOp.givenBack?]
    generalize cur.next = r at hdelivery ⊢
    cases hdelivery with
    | held => simp [Place.line_advance]
    | failedBefore => simp
    | released => simp
    | char => simp [Place.line_advance]
    | ended => simp
    | failed => simp
    | interrupted => simp
  | giveBack c =>
    simp only [CursorOp.perform, Outcome.state_mapAnswer, CursorOp.delivered?, CursorOp.givenBack?]
    rcases Cursor.giveBack_cases c cur with ⟨-, hback⟩ | ⟨held, -, hback⟩
    · simp [hback, Place.line_retreat]
    · simp [hback]
  | close => simp [CursorOp.perform, CursorOp.delivered?, CursorOp.givenBack?]
  | location => simp [CursorOp.perform, CursorOp.delivered?, CursorOp.givenBack?]
  | enter => simp [CursorOp.perform, CursorOp.delivered?, CursorOp.givenBack?]
  | leave => simp [CursorOp.perform, CursorOp.delivered?, CursorOp.givenBack?]

theorem line_after (ops : List CursorOp) (cur : Cursor) :
    (after CursorOp.perform ops cur).place.line = cur.place.line +
      (charsAlong CursorOp.delivered? ops cur).count '\n' -
      (charsAlong CursorOp.givenBack? ops cur).count '\n' := by
  induction ops generalizing cur with
  | nil => simp [charsAlong]
  | cons op ops ih =>
    rw [after_cons, ih, line_perform]
    simp only [charsAlong, List.count_append, Int.natCast_add]
    omega

/-! ## §6. The whole session -/

/-- Let a session begin at the beginning of a text.  As long as it gives back, into an empty slot,
    only the character passed last, the cursor stands right behind what has been passed: the slot
    and the stream hold the rest of the text, and the location is counted from what has been
    passed.  A full slot refuses, and nothing changes.  The end is reported when the slot is empty
    and all has been passed or the cursor was closed, and once the stream is released nothing but
    the slot is delivered.

    The line is right in every session, whatever is given back. -/
theorem cursor_exact (text filename : String) (ops : List CursorOp) :
    let fresh := Cursor.ofText text filename
    let cur := after CursorOp.perform ops fresh
    let passed := passedAlong ops fresh []
    let closed := ops.any CursorOp.closes = true
    (GiveLastBack ops fresh [] →
      passed <+: text.toList ∧
      (∃ unread : List Char, cur.stream.script = unread.map .char ∧
        text.toList = passed ++ cur.slot.toList ++ unread) ∧
      cur.location = .behind filename passed ∧
      (∀ held c, cur.slot = some held →
        (CursorOp.giveBack c).perform cur = (.error (.slotFull held c), cur)) ∧
      ((CursorOp.next.perform cur).1 = .ok (.char none) ↔
        cur.slot = none ∧ (closed ∨ passed = text.toList)) ∧
      (closed → cur.isOpen = false) ∧
      (cur.isOpen = false → (CursorOp.next.perform cur).1 = .ok (.char cur.slot))) ∧
    cur.location.line = 1 + (charsAlong CursorOp.delivered? ops fresh).count '\n' -
      (charsAlong CursorOp.givenBack? ops fresh).count '\n' := by
  intro fresh cur passed closed
  refine ⟨?_, line_after ops fresh⟩
  intro hops
  have hexact : Exact text.toList filename passed cur := (exact_ofText text filename).after hops
  have hreply : ∀ {c}, (CursorOp.next.perform cur).1 = .ok (.char c) ↔ cur.next.1 = .ok c := by
    intro c
    show cur.next.1.map Reply.char = _ ↔ _
    cases cur.next.1 with
    | error p => simp [Except.map]
    | ok d => simp [Except.map]
  have hclosed : closed → cur.isOpen = false := fun h => isOpen_after_of_closes ops fresh (.inr h)
  obtain ⟨unread, hscript, htext⟩ := hexact.text_eq
  refine ⟨⟨cur.slot.toList ++ unread, by rw [htext, List.append_assoc]⟩, ⟨unread, hscript, htext⟩,
    hexact.location_eq, ?_, ?_, hclosed, ?_⟩
  · intro held c hslot
    simp [CursorOp.perform, Cursor.giveBack, hslot]
  · rw [hreply]
    constructor
    · intro hnone
      obtain ⟨hslot, hend⟩ := hexact.of_next_none hnone
      refine ⟨hslot, ?_⟩
      by_cases h : closed
      · exact .inl h
      · -- Nobody closed the cursor, so it was the end of the text that released the stream.
        right
        rcases hend with hreleased | hall
        · have hdrained := drained_after ops (Cursor.drained_ofText text filename)
            (Bool.eq_false_iff.2 h)
          have hempty : unread = [] :=
            List.map_eq_nil_iff.1 (hscript.symm.trans (hdrained.script_eq hreleased))
          rw [htext, hslot, hempty]
          simp
        · exact hall
    · rintro ⟨hslot, hend⟩
      rw [← hslot]
      exact hexact.next_eq_slot (hend.imp_left hclosed)
  · intro hreleased
    exact hreply.2 (hexact.next_eq_slot (.inl hreleased))

/-- A line feed is given back twice, the second time after the cursor was closed; in between
    another character is refused. -/
theorem cursor_exact_line_feed :
    let ops := [CursorOp.next, .next, .giveBack '\n', .giveBack 'x', .close, .next, .giveBack '\n']
    let fresh := Cursor.ofText "a\nb" "f"
    let cur := after CursorOp.perform ops fresh
    GiveLastBack ops fresh [] ∧ passedAlong ops fresh [] = ['a'] ∧
    cur.location = ⟨"f", 1, 2⟩ ∧ cur.isOpen = false ∧
    (CursorOp.giveBack 'x').perform cur = (.error (.slotFull '\n' 'x'), cur) ∧
    (CursorOp.next.perform cur).1 = .ok (.char (some '\n')) := by
  intro ops fresh cur
  have hops : GiveLastBack ops fresh [] := by decide +kernel
  have hpassed : passedAlong ops fresh [] = ['a'] := by decide +kernel
  have hslot : cur.slot = some '\n' := by decide +kernel
  obtain ⟨-, -, hlocation, hrefused, -, hclosed, hslotOnly⟩ := (cursor_exact "a\nb" "f" ops).1 hops
  have hreleased := hclosed (by decide)
  refine ⟨hops, hpassed, ?_, hreleased, hrefused '\n' 'x' hslot, ?_⟩
  · rw [hlocation, hpassed]
    decide +kernel
  · rw [← hslot]
    exact hslotOnly hreleased

end Session

end RpalLex
