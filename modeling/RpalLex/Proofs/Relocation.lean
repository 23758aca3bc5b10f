import RpalLex.Proofs.Calls
import RpalLex.Proofs.Concatenation

/-! # The same stream, read from another place

  A cursor that begins at one location and a cursor that begins at another
  one read the same characters from the same stream.  Everything that comes
  of it is the same except the locations, and these are shifted.

  Two cursors that are *moved* against each other (§1) may differ in what they
  remember of the past: what happened to the stream so far, and the column of
  the line feed that was passed last.  Neither matters.  The column is looked
  at only when a line feed is given back, and that was passed just before.

  Main statements: `Moved.next` (one character), `Moved.nextToken` (one token)
  and `Moved.answer_afterCalls` (any number of calls). -/

namespace RpalLex

open Alphabet

variable {σ α β : Type} {origin : Location}

/-! ## §1. Cursors that are moved against each other -/

def Cursor.Failure.shift (origin : Location) (e : Cursor.Failure) : Cursor.Failure :=
  ⟨e.message, origin.shift e.location⟩

namespace Cursor

/-- The second cursor stands where the first one would stand behind the origin, and both have the
    same before them. -/
structure Moved (origin : Location) (cur cur' : Cursor) : Prop where
  filename_eq : cur'.filename = cur.filename
  script_eq : cur'.stream.script = cur.stream.script
  isOpen_eq : cur'.isOpen = cur.isOpen
  slot_eq : cur'.slot = cur.slot
  failure_eq : cur'.failure = cur.failure.map (Failure.shift origin)
  location_eq : cur'.location = origin.shift cur.location
  line_le : 1 ≤ cur.location.line

/-- The answers differ in their locations only, and the cursors are moved. -/
structure MovedOutcome (origin : Location) (f : α → β) (x : Outcome Cursor α)
    (y : Outcome Cursor β) : Prop where
  answer_eq : y.1 = (x.1.mapError (Problem.shift origin)).map f
  moved : x.2.Moved origin y.2

variable {cur cur' cur1 : Cursor} {c : Char} {f : α → α}

theorem Moved.close (h : cur.Moved origin cur') : cur.close.Moved origin cur'.close where
  filename_eq := by simpa using h.filename_eq
  script_eq := by simpa using h.script_eq
  isOpen_eq := by simp
  slot_eq := by simpa using h.slot_eq
  failure_eq := by simpa using h.failure_eq
  location_eq := by simpa using h.location_eq
  line_le := by simpa using h.line_le

/-- What a read does to both cursors. -/
theorem Moved.withStream (h : cur.Moved origin cur') {stream stream' : Stream}
    (hscript : stream'.script = stream.script) :
    Moved origin { cur with stream } { cur' with stream := stream' } :=
  { h with script_eq := hscript }

/-- Both pass the same character. -/
theorem Moved.advance (h : cur.Moved origin cur') (c : Char) :
    Moved origin { cur with slot := none, place := cur.place.advance c }
      { cur' with slot := none, place := cur'.place.advance c } := by
  have hlocation : location { cur with slot := none, place := cur.place.advance c } =
      cur.location.advance c := Place.inFile_advance _ _ _
  have hlocation' : location { cur' with slot := none, place := cur'.place.advance c } =
      cur'.location.advance c := Place.inFile_advance _ _ _
  refine { h with slot_eq := rfl, location_eq := ?_, line_le := ?_ }
  · rw [hlocation, hlocation', h.location_eq, Location.shift_advance h.line_le]
  · rw [hlocation]
    exact Int.le_trans h.line_le (Location.line_column_after cur.location [c]).1

/-- Both take back the character that they have just passed. -/
theorem Moved.retreat (h : cur.Moved origin cur') (c : Char) :
    Moved origin { cur with slot := some c, place := (cur.place.advance c).retreat c }
      { cur' with slot := some c, place := (cur'.place.advance c).retreat c } := by
  have hlocation : location { cur with slot := some c, place := (cur.place.advance c).retreat c } =
      cur.location := Place.inFile_retreat_advance _ _ _
  have hlocation' :
      location { cur' with slot := some c, place := (cur'.place.advance c).retreat c } =
      cur'.location := Place.inFile_retreat_advance _ _ _
  refine { h with slot_eq := rfl, location_eq := ?_, line_le := ?_ }
  · rw [hlocation, hlocation', h.location_eq]
  · rw [hlocation]
    exact h.line_le

theorem Moved.read (h : cur.Moved origin cur') {r : Read} {stream : Stream}
    (hread : cur.stream.read = (r, stream)) :
    ∃ stream', cur'.stream.read = (r, stream') ∧ stream'.script = stream.script := by
  have hscript := h.script_eq
  unfold Stream.read at hread ⊢
  cases hold : cur.stream.script with
  | nil =>
    rw [hold] at hscript hread
    rw [hscript]
    cases hread
    exact ⟨_, rfl, rfl⟩
  | cons r rest =>
    rw [hold] at hscript hread
    rw [hscript]
    cases hread
    exact ⟨_, rfl, rfl⟩

theorem Moved.next_eq (h : cur.Moved origin cur') (hslot : cur.slot = none)
    (hfailure : cur.failure = none) (hopen : cur.isOpen = true) :
    cur'.next = cur'.readStream := by
  apply next_of_isOpen
  · rw [h.slot_eq, hslot]
  · rw [h.failure_eq, hfailure]
    rfl
  · rw [h.isOpen_eq, hopen]

/-- One cursor is given what the other one is given, and both can give it back. -/
theorem Moved.next (h : cur.Moved origin cur') :
    MovedOutcome origin id cur.next cur'.next ∧
      ∀ c, cur.next.1 = .ok (some c) →
        (cur.next.2.giveBack c).2.Moved origin (cur'.next.2.giveBack c).2 := by
  -- What the first cursor finds in front of it the other one finds as well.
  have hdelivery := cur.delivery
  generalize hnext : cur.next = answer at hdelivery ⊢
  cases hdelivery with
  | @held c hslot =>
    have hslot' : cur'.slot = some c := h.slot_eq.trans hslot
    rw [next_of_slot_some hslot']
    refine ⟨⟨rfl, h.advance c⟩, ?_⟩
    intro d hd
    cases hd
    exact h.retreat c
  | @failedBefore e hslot hfailure =>
    have hslot' : cur'.slot = none := h.slot_eq.trans hslot
    have hfailure' : cur'.failure = some (e.shift origin) := by rw [h.failure_eq, hfailure]; rfl
    have hnext' : cur'.next =
        (.error (.lexical ((e.shift origin).toError .earlierFailure)), cur') := by
      simp [Cursor.next, hslot', hfailure']
    rw [hnext']
    exact ⟨⟨rfl, h⟩, fun d hd => by cases hd⟩
  | released hslot hfailure hclosed =>
    have hslot' : cur'.slot = none := h.slot_eq.trans hslot
    have hfailure' : cur'.failure = none := by rw [h.failure_eq, hfailure]; rfl
    have hclosed' : cur'.isOpen = false := h.isOpen_eq.trans hclosed
    have hnext' : cur'.next = (.ok none, cur') := by
      simp [Cursor.next, hslot', hfailure', hclosed']
    rw [hnext']
    exact ⟨⟨rfl, h⟩, fun d hd => by cases hd⟩
  | @char c stream hslot hfailure hopen hread =>
    obtain ⟨stream', hread', hscript⟩ := h.read hread
    have hslot' := h.slot_eq.trans hslot
    have hmoved := h.withStream hscript
    rw [h.next_eq hslot hfailure hopen]
    simp only [readStream, hread']
    refine ⟨⟨rfl, ?_⟩, ?_⟩
    · simpa [hslot, hslot'] using hmoved.advance c
    · intro d hd
      cases hd
      simpa [Cursor.giveBack, hslot, hslot'] using hmoved.retreat c
  | ended hslot hfailure hopen hread =>
    obtain ⟨stream', hread', hscript⟩ := h.read hread
    rw [h.next_eq hslot hfailure hopen]
    simp only [readStream, hread']
    exact ⟨⟨rfl, (h.withStream hscript).close⟩, fun d hd => by cases hd⟩
  | @failed f stream hslot hfailure hopen hread hf =>
    obtain ⟨stream', hread', hscript⟩ := h.read hread
    have hfailure' : cur'.failureOf f = (cur.failureOf f).shift origin := by
      simp [failureOf, Failure.shift, h.filename_eq, h.location_eq]
    rw [h.next_eq hslot hfailure hopen]
    simp only [readStream, hread', hf, if_true, hfailure']
    refine ⟨⟨rfl, ?_⟩, fun d hd => by cases hd⟩
    have hfails : Moved origin { cur with stream, failure := some (cur.failureOf f) }
        { cur' with stream := stream', failure := some ((cur.failureOf f).shift origin) } :=
      { h with script_eq := hscript, failure_eq := rfl }
    exact hfails.close
  | interrupted hslot hfailure hopen hread hf =>
    obtain ⟨stream', hread', hscript⟩ := h.read hread
    rw [h.next_eq hslot hfailure hopen]
    simp only [readStream, hread', hf]
    exact ⟨⟨rfl, h.withStream hscript⟩, fun d hd => by cases hd⟩

theorem Moved.next_char (h : cur.Moved origin cur') (hnext : cur.next = (.ok (some c), cur1)) :
    ∃ cur1', cur'.next = (.ok (some c), cur1') ∧ cur1.Moved origin cur1' ∧
      (cur1.giveBack c).2.Moved origin (cur1'.giveBack c).2 := by
  obtain ⟨⟨hanswer, hmoved⟩, hback⟩ := h.next
  rw [hnext] at hanswer hmoved hback
  exact ⟨_, Prod.ext hanswer rfl, hmoved, hback c rfl⟩

theorem Moved.next_none (h : cur.Moved origin cur') (hnext : cur.next = (.ok none, cur1)) :
    ∃ cur1', cur'.next = (.ok none, cur1') ∧ cur1.Moved origin cur1' := by
  obtain ⟨⟨hanswer, hmoved⟩, -⟩ := h.next
  rw [hnext] at hanswer hmoved
  exact ⟨_, Prod.ext hanswer rfl, hmoved⟩

theorem Moved.next_error {p : Problem} (h : cur.Moved origin cur')
    (hnext : cur.next = (.error p, cur1)) :
    ∃ cur1', cur'.next = (.error (p.shift origin), cur1') ∧ cur1.Moved origin cur1' := by
  obtain ⟨⟨hanswer, hmoved⟩, -⟩ := h.next
  rw [hnext] at hanswer hmoved
  exact ⟨_, Prod.ext hanswer rfl, hmoved⟩

/-! ## §2. Lexemes -/

/-- Rules that take the same characters, and report the end of the text at shifted locations. -/
structure MovedRule (origin : Location) (rule rule' : Rule σ α) : Prop where
  onChar_eq : rule'.onChar = rule.onChar
  onEnd_eq : ∀ s, rule'.onEnd s = (rule.onEnd s).mapError (LexError.shift origin)

theorem movedRule_munchRule (accept : Char → Bool) :
    MovedRule origin (munchRule accept) (munchRule accept) := ⟨rfl, fun _ => rfl⟩

theorem movedRule_commentRule (keepNewline : Bool) :
    MovedRule origin (commentRule keepNewline) (commentRule keepNewline) := ⟨rfl, fun _ => rfl⟩

theorem movedRule_literalRule (start : Location) :
    MovedRule origin (literalRule start) (literalRule (origin.shift start)) := ⟨rfl, fun _ => rfl⟩

theorem MovedOutcome.mapAnswer {x y : Outcome Cursor α} {f : α → α} {f' : β → β}
    (h : MovedOutcome origin f x y) {g g' : α → β} (hg : ∀ a, g' (f a) = f' (g a)) :
    MovedOutcome origin f' (x.mapAnswer g) (y.mapAnswer g') := by
  refine ⟨?_, h.moved⟩
  have hanswer := h.answer_eq
  rcases x with ⟨p | a, cur⟩
  · show y.1.map g' = _
    rw [hanswer]
    rfl
  · show y.1.map g' = _
    rw [hanswer]
    exact congrArg Except.ok (hg a)

theorem MovedOutcome.stopBefore (hslot : cur.slot = none) (hslot' : cur'.slot = none)
    (h : (cur.giveBack c).2.Moved origin (cur'.giveBack c).2) (a : α) :
    MovedOutcome origin id (cur.stopBefore c a) (cur'.stopBefore c a) := by
  refine ⟨?_, h⟩
  rw [Cursor.stopBefore, Cursor.stopBefore, giveBack_of_slot_none hslot,
    giveBack_of_slot_none hslot']
  rfl

theorem Moved.gather {rule rule' : Rule σ α} (h : cur.Moved origin cur')
    (hrule : MovedRule origin rule rule') (s : σ) :
    MovedOutcome origin id (gather rule s cur) (gather rule' s cur') := by
  -- The induction goes along the loop at the first place; the other one makes the same rounds.
  fun_induction Cursor.gather rule s cur generalizing cur' with
  | case1 s cur p cur1 hnext =>
    obtain ⟨cur1', hnext', hmoved⟩ := h.next_error hnext
    rw [gather_error hnext']
    exact ⟨rfl, hmoved⟩
  | case2 s cur cur1 hnext =>
    obtain ⟨cur1', hnext', hmoved⟩ := h.next_none hnext
    rw [gather_end hnext', hrule.onEnd_eq]
    refine ⟨?_, hmoved⟩
    cases rule.onEnd s with
    | error e => rfl
    | ok a => rfl
  | case3 s cur c cur1 hnext s' hv ih =>
    obtain ⟨cur1', hnext', hmoved, -⟩ := h.next_char hnext
    rw [← hrule.onChar_eq] at hv
    rw [gather_extend hnext' hv]
    exact ih hmoved
  | case4 s cur c cur1 hnext a hv =>
    obtain ⟨cur1', hnext', hmoved, -⟩ := h.next_char hnext
    rw [← hrule.onChar_eq] at hv
    rw [gather_finish hnext' hv]
    exact ⟨rfl, hmoved⟩
  | case5 s cur c cur1 hnext a hv =>
    obtain ⟨cur1', hnext', -, hback⟩ := h.next_char hnext
    rw [← hrule.onChar_eq] at hv
    rw [gather_stopBefore hnext' hv]
    exact .stopBefore (slot_of_next hnext) (slot_of_next hnext') hback a
  | case6 s cur c cur1 hnext context hv =>
    obtain ⟨cur1', hnext', hmoved, -⟩ := h.next_char hnext
    rw [← hrule.onChar_eq] at hv
    rw [gather_reject hnext' hv, h.location_eq]
    exact ⟨rfl, hmoved⟩

theorem Moved.mapAnswer_munch (h : cur.Moved origin cur') (accept : Char → Bool)
    (text : List Char) {g g' : List Char → Token} (hg : ∀ cs, g' cs = (g cs).shift origin) :
    MovedOutcome origin (Token.shift origin) ((cur.munch accept text).mapAnswer g)
      ((cur'.munch accept text).mapAnswer g') :=
  (h.gather (movedRule_munchRule accept) text.reverse).mapAnswer hg

theorem Moved.operator (h : cur.Moved origin cur') (keepNewline : Bool) (first : Char)
    (start : Location) :
    MovedOutcome origin (Token.shift origin) (cur.operator keepNewline first start)
      (cur'.operator keepNewline first (origin.shift start)) := by
  unfold Cursor.operator
  rcases hnext : cur.next with ⟨p | _ | second, cur1⟩
  · obtain ⟨cur1', hnext', hmoved⟩ := h.next_error hnext
    simp only [hnext']
    exact ⟨rfl, hmoved⟩
  · obtain ⟨cur1', hnext', hmoved⟩ := h.next_none hnext
    simp only [hnext']
    exact ⟨rfl, hmoved⟩
  · obtain ⟨cur1', hnext', hmoved, hback⟩ := h.next_char hnext
    simp only [hnext']
    split
    · exact (hmoved.gather (movedRule_commentRule keepNewline) ['/', '/']).mapAnswer fun _ => rfl
    · rw [giveBack_of_slot_none (slot_of_next hnext),
        giveBack_of_slot_none (slot_of_next hnext')] at hback ⊢
      exact hback.mapAnswer_munch isOperatorSymbol [first] fun _ => rfl

theorem Moved.mark (h : cur.Moved origin cur') (first : Char) (start : Location) :
    MovedOutcome origin (Token.shift origin) (cur.mark first start)
      (cur'.mark first (origin.shift start)) := by
  unfold Cursor.mark
  split
  · exact ⟨rfl, h⟩
  · exact ⟨rfl, h⟩

theorem Moved.lexeme (h : cur.Moved origin cur') (keepNewline : Bool) (k : StartClass)
    (first : Char) (start : Location) :
    MovedOutcome origin (Token.shift origin) (cur.lexeme keepNewline k first start)
      (cur'.lexeme keepNewline k first (origin.shift start)) := by
  cases k with
  | letter => exact h.mapAnswer_munch isIdentifierChar [first] fun _ => rfl
  | digit => exact h.mapAnswer_munch isDigit [first] fun _ => rfl
  | operator => exact h.operator keepNewline first start
  | quote => exact (h.gather (movedRule_literalRule start) ⟨[], false⟩).mapAnswer fun _ => rfl
  | space => exact h.mapAnswer_munch isBlank [first] fun _ => rfl
  | punctuation => exact h.mark first start

/-- What is said of the next token, moved. -/
theorem Moved.nextToken (h : cur.Moved origin cur') (keepNewline : Bool) :
    MovedOutcome origin (Option.map (Token.shift origin)) (cur.nextToken keepNewline)
      (cur'.nextToken keepNewline) := by
  unfold Cursor.nextToken
  rcases hnext : cur.next with ⟨p | _ | c, cur1⟩
  · obtain ⟨cur1', hnext', hmoved⟩ := h.next_error hnext
    simp only [hnext']
    exact ⟨rfl, hmoved⟩
  · obtain ⟨cur1', hnext', hmoved⟩ := h.next_none hnext
    simp only [hnext']
    exact ⟨rfl, hmoved⟩
  · obtain ⟨cur1', hnext', hmoved, -⟩ := h.next_char hnext
    simp only [hnext', h.location_eq]
    split
    · next k hk => exact (hmoved.lexeme keepNewline k c cur.location).mapAnswer fun _ => rfl
    · exact ⟨rfl, hmoved⟩

end Cursor

/-! ## §3. Calls -/

namespace Lexer

/-- The answer of a call, moved. -/
def shiftAnswer (origin : Location) (answer : Except Problem (Option Token)) :
    Except Problem (Option Token) :=
  (answer.mapError (Problem.shift origin)).map (Option.map (Token.shift origin))

/-- Two lexers that are moved against each other.  They may have counted different tokens. -/
structure Moved (origin : Location) (lx lx' : Lexer) : Prop where
  keepNewline_eq : lx'.keepNewline = lx.keepNewline
  failure_eq : lx'.failure = lx.failure.map (LexError.shift origin)
  cursor : lx.cursor.Moved origin lx'.cursor

variable {lx lx' : Lexer}

theorem lexicalErrorOf_shiftAnswer (origin : Location) (answer : Except Problem (Option Token)) :
    lexicalErrorOf (shiftAnswer origin answer) =
      (lexicalErrorOf answer).map (LexError.shift origin) := by
  rcases answer with p | t
  · cases p with
    | lexical e => rfl
    | fault f => rfl
    | slotFull held given => rfl
    | notPunctuation c => rfl
  · rfl

/-- Both lexers are answered alike, and they stay moved against each other. -/
theorem Moved.next (h : lx.Moved origin lx') :
    lx'.next.1 = shiftAnswer origin lx.next.1 ∧ lx.next.2.Moved origin lx'.next.2 := by
  cases hf : lx.failure with
  | some e =>
    have hf' : lx'.failure = some (e.shift origin) := by
      rw [h.failure_eq, hf]
      rfl
    rw [next_of_failure hf, next_of_failure hf']
    exact ⟨rfl, h⟩
  | none =>
    have hf' : lx'.failure = none := by
      rw [h.failure_eq, hf]
      rfl
    obtain ⟨hanswer, hcursor⟩ := h.cursor.nextToken lx.keepNewline
    rcases htoken : lx.cursor.nextToken lx.keepNewline with ⟨answer, cur⟩
    rcases htoken' : lx'.cursor.nextToken lx.keepNewline with ⟨answer', cur'⟩
    rw [htoken, htoken'] at hanswer hcursor
    obtain rfl : answer' = shiftAnswer origin answer := hanswer
    rw [← h.keepNewline_eq] at htoken'
    rw [next_of_nextToken hf htoken, next_of_nextToken hf' htoken']
    refine ⟨rfl, ⟨h.keepNewline_eq, lexicalErrorOf_shiftAnswer origin answer, ?_⟩⟩
    rw [lexicalErrorOf_shiftAnswer, Option.isSome_map]
    split
    · exact hcursor.close
    · exact hcursor

theorem Moved.answer_afterCalls (h : lx.Moved origin lx') (n : Nat) :
    (lx'.afterCalls n).next.1 = shiftAnswer origin (lx.afterCalls n).next.1 := by
  induction n generalizing lx lx' with
  | zero => exact h.next.1
  | succ n ih => exact ih h.next.2

end Lexer

end RpalLex
