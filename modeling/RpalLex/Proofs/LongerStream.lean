import RpalLex.Proofs.Position
import RpalLex.Proofs.Invariance

/-! # A stream with something behind its text

  One stream ends with a text; another one delivers the same text and goes on
  with a `tail`, of which nothing is supposed: more text, a fault, anything.

  As long as nothing looks behind the text, a cursor reads the same from both
  streams and is in the same state afterwards, the tail apart.  The first look
  behind the text is where they part: one cursor sees the end, the other one
  is about to meet the tail.  If the tail begins with a fault, then what was
  being read fails with it.  `Alike` is this alternative, for whatever may be
  read.

  Main statements: `UpTo.gather` (the loop under which lexemes are read),
  `UpTo.nextToken` (one token) and `Lexer.UpTo.next` (one call). -/

namespace RpalLex

open Alphabet

namespace Cursor

/-! ## §1. Two cursors -/

/-- The cursor whose stream goes on with a tail. -/
def withTail (tail : List Read) (cur : Cursor) : Cursor :=
  { cur with stream := { cur.stream with script := cur.stream.script ++ tail } }

/-- The stream of an open cursor delivers the characters up to a location and ends there, and
    nobody has met its end yet. -/
structure UpTo (goal : Location) (cur : Cursor) : Prop where
  isOpen_eq : cur.isOpen = true
  failure_eq : cur.failure = none
  sawEnd_eq : cur.stream.sawEnd = false
  ahead : ∃ unread : List Char, cur.stream.script = unread.map .char ∧
    cur.location.after (cur.slot.toList ++ unread) = goal

/-- The text is read, and the tail comes next. -/
structure AtTail (tail : List Read) (goal : Location) (cur : Cursor) : Prop where
  isOpen_eq : cur.isOpen = true
  failure_eq : cur.failure = none
  slot_eq : cur.slot = none
  script_eq : cur.stream.script = tail
  location_eq : cur.location = goal

variable {tail : List Read} {goal start : Location} {cur cur' : Cursor} {c : Char} {σ α β : Type}

theorem upTo_ofText (text filename : String) :
    (ofText text filename).UpTo (.behind filename text.toList) where
  isOpen_eq := rfl
  failure_eq := rfl
  sawEnd_eq := rfl
  ahead := ⟨text.toList, rfl, Location.start_after filename text.toList⟩

theorem AtTail.next_eq (h : cur.AtTail tail goal) : cur.next = cur.readStream :=
  next_of_isOpen h.slot_eq h.failure_eq h.isOpen_eq

theorem next_of_char {rest : List Read} (hslot : cur.slot = none) (hfailure : cur.failure = none)
    (hopen : cur.isOpen = true) (hscript : cur.stream.script = .char c :: rest) :
    cur.next = (.ok (some c),
      { cur with
        stream := ⟨rest, .read (.char c) :: cur.stream.history⟩
        slot := none
        place := cur.place.advance c }) := by
  rw [next_of_isOpen hslot hfailure hopen]
  simp only [readStream, Stream.read, hscript, hslot]

theorem UpTo.advance (h : cur.UpTo goal) {stream : Stream} {unread : List Char}
    (hscript : stream.script = unread.map .char) (hseen : stream.sawEnd = false)
    (hgoal : cur.location.after (c :: unread) = goal) :
    UpTo goal { cur with stream, slot := none, place := cur.place.advance c } where
  isOpen_eq := h.isOpen_eq
  failure_eq := h.failure_eq
  sawEnd_eq := hseen
  ahead := by
    refine ⟨unread, hscript, ?_⟩
    have hadvance : (cur.place.advance c).inFile cur.filename = cur.location.advance c :=
      Place.inFile_advance _ _ _
    rw [location, hadvance]
    exact hgoal

/-- A character that was passed can be given back. -/
theorem UpTo.retreat (h : cur.UpTo goal) {stream : Stream} {unread : List Char}
    (hscript : stream.script = unread.map .char) (hseen : stream.sawEnd = false)
    (hgoal : cur.location.after (c :: unread) = goal) :
    UpTo goal
      { cur with stream, slot := some c, place := (cur.place.advance c).retreat c } where
  isOpen_eq := h.isOpen_eq
  failure_eq := h.failure_eq
  sawEnd_eq := hseen
  ahead := by
    refine ⟨unread, hscript, ?_⟩
    have hretreat : ((cur.place.advance c).retreat c).inFile cur.filename = cur.location :=
      Place.inFile_retreat_advance _ _ _
    rw [location, hretreat]
    exact hgoal

/-- Either there is a character, which comes from both streams and can be given back to both
    cursors; or one cursor meets the end, and the other one is at its tail. -/
theorem UpTo.next (h : cur.UpTo goal) (tail : List Read) :
    (∃ c cur1, cur.next = (.ok (some c), cur1) ∧
      (cur.withTail tail).next = (.ok (some c), cur1.withTail tail) ∧ cur1.UpTo goal ∧
      ∃ cur2, cur1.giveBack c = (.ok (), cur2) ∧
        (cur1.withTail tail).giveBack c = (.ok (), cur2.withTail tail) ∧ cur2.UpTo goal) ∨
    ∃ cur1, cur.next = (.ok none, cur1) ∧ cur1.stream.sawEnd = true ∧
      (cur.withTail tail).AtTail tail goal := by
  obtain ⟨unread, hscript, hgoal⟩ := h.ahead
  have hopen : (cur.withTail tail).isOpen = true := h.isOpen_eq
  have hfailure : (cur.withTail tail).failure = none := h.failure_eq
  rcases hslot : cur.slot with _ | c
  · -- The slot is empty, so both streams are read.
    rw [hslot, Option.toList_none, List.nil_append] at hgoal
    cases unread with
    | nil =>
      right
      have hread : cur.readStream = (.ok none, close { cur with stream := cur.stream.read.2 }) := by
        simp [readStream, Stream.read, hscript]
      refine ⟨_, (next_of_isOpen hslot h.failure_eq h.isOpen_eq).trans hread, ?_, ?_⟩
      · simp [close, h.isOpen_eq, Stream.read, hscript, Stream.sawEnd, Stream.close]
      · exact {
          isOpen_eq := hopen
          failure_eq := hfailure
          slot_eq := hslot
          script_eq := by simp [withTail, hscript]
          location_eq := hgoal }
    | cons c unread =>
      left
      have hscript' : (cur.withTail tail).stream.script =
          .char c :: (unread.map .char ++ tail) := by
        simp [withTail, hscript]
      have hseen : Stream.sawEnd ⟨unread.map .char, .read (.char c) :: cur.stream.history⟩ =
          false := by
        have hseen := h.sawEnd_eq
        simpa [Stream.sawEnd] using hseen
      exact ⟨c, _, next_of_char hslot h.failure_eq h.isOpen_eq hscript,
        next_of_char hslot hfailure hopen hscript', h.advance rfl hseen hgoal, _,
        giveBack_of_slot_none rfl c, giveBack_of_slot_none rfl c, h.retreat rfl hseen hgoal⟩
  · -- What waits in the slot comes first.
    rw [hslot, Option.toList_some, List.singleton_append] at hgoal
    left
    exact ⟨c, _, next_of_slot_some hslot, next_of_slot_some hslot,
      h.advance hscript h.sawEnd_eq hgoal, _, giveBack_of_slot_none rfl c,
      giveBack_of_slot_none rfl c, h.retreat hscript h.sawEnd_eq hgoal⟩

theorem UpTo.next_char (h : cur.UpTo goal) (hnext : cur.next = (.ok (some c), cur'))
    (tail : List Read) :
    (cur.withTail tail).next = (.ok (some c), cur'.withTail tail) ∧ cur'.UpTo goal ∧
      ∃ cur'', cur'.giveBack c = (.ok (), cur'') ∧
        (cur'.withTail tail).giveBack c = (.ok (), cur''.withTail tail) ∧ cur''.UpTo goal := by
  rcases h.next tail with ⟨d, cur1, hchar, hrest⟩ | ⟨cur1, hend, -⟩
  · rw [hnext] at hchar
    cases hchar
    exact hrest
  · rw [hnext] at hend
    cases hend

theorem UpTo.next_none (h : cur.UpTo goal) (hnext : cur.next = (.ok none, cur'))
    (tail : List Read) :
    cur'.stream.sawEnd = true ∧ (cur.withTail tail).AtTail tail goal := by
  rcases h.next tail with ⟨d, cur1, hchar, -⟩ | ⟨cur1, hend, hrest⟩
  · rw [hnext] at hchar
    cases hchar
  · rw [hnext] at hend
    cases hend
    exact hrest

theorem UpTo.next_ne_error (h : cur.UpTo goal) (p : Problem) : cur.next ≠ (.error p, cur') := by
  intro hnext
  rcases h.next [] with ⟨d, cur1, hchar, -⟩ | ⟨cur1, hend, -⟩
  · rw [hnext] at hchar
    cases hchar
  · rw [hnext] at hend
    cases hend

/-! ## §2. Whatever is read -/

/-- What comes of reading without a tail and with one.  Within the text the outcomes are the same,
    and the only error is an invalid character.  Beyond it, one cursor has met the end; the other
    one has come to its tail, and if the tail fails to give a character, then so does the
    reading. -/
inductive Alike (tail : List Read) (goal : Location) :
    Outcome Cursor α → Outcome Cursor α → Prop where
  | within {answer : Except Problem α} {cur : Cursor} :
      (∀ p, answer = .error p →
        ∃ c loc context, p = .lexical (.invalidCharacter c (some loc) context)) →
      cur.UpTo goal → Alike tail goal (answer, cur) (answer, cur.withTail tail)
  | beyond {x y : Outcome Cursor α} {last : Cursor} :
      x.2.stream.sawEnd = true → last.AtTail tail goal →
      (∀ p last', last.next = (.error p, last') → y = (.error p, last')) →
      Alike tail goal x y

theorem Alike.ok (a : α) (h : cur.UpTo goal) :
    Alike tail goal (.ok a, cur) (.ok a, cur.withTail tail) :=
  .within (fun _ herror => by cases herror) h

theorem Alike.invalid (c : Char) (loc : Location) (context : Option String) (h : cur.UpTo goal) :
    Alike tail goal
      ((.error (.lexical (.invalidCharacter c (some loc) context)), cur) : Outcome Cursor α)
      (.error (.lexical (.invalidCharacter c (some loc) context)), cur.withTail tail) :=
  .within (fun _ herror => by cases herror; exact ⟨c, loc, context, rfl⟩) h

theorem Alike.mapAnswer {x y : Outcome Cursor α} (h : Alike tail goal x y) (f : α → β) :
    Alike tail goal (x.mapAnswer f) (y.mapAnswer f) := by
  cases h with
  | @within answer cur herror hcur =>
    cases answer with
    | error p => exact .within (fun q hq => herror q (by cases hq; rfl)) hcur
    | ok a => exact .ok (f a) hcur
  | beyond hseen hlast hfail =>
    refine .beyond hseen hlast ?_
    intro p last' hnext
    rw [hfail p last' hnext, Outcome.mapAnswer_error]

theorem UpTo.gather (h : cur.UpTo goal) (rule : Rule σ α) (s : σ) (tail : List Read) :
    Alike tail goal (gather rule s cur) (gather rule s (cur.withTail tail)) := by
  -- The induction goes along the loop without the tail.  The other loop makes the same rounds,
  -- and the two part in the round that finds no character.
  fun_induction Cursor.gather rule s cur with
  | case1 s cur p cur' hnext => exact absurd hnext (h.next_ne_error p)
  | case2 s cur cur' hnext =>
    obtain ⟨hseen, hlast⟩ := h.next_none hnext tail
    exact .beyond hseen hlast fun p last' => gather_error
  | case3 s cur c cur' hnext s' hv ih =>
    obtain ⟨hnext', hcur', -⟩ := h.next_char hnext tail
    rw [gather_extend hnext' hv]
    exact ih hcur'
  | case4 s cur c cur' hnext a hv =>
    obtain ⟨hnext', hcur', -⟩ := h.next_char hnext tail
    rw [gather_finish hnext' hv]
    exact .ok a hcur'
  | case5 s cur c cur' hnext a hv =>
    obtain ⟨hnext', -, cur'', hback, hback', hcur''⟩ := h.next_char hnext tail
    rw [gather_stopBefore hnext' hv, stopBefore, hback, stopBefore, hback']
    exact .ok a hcur''
  | case6 s cur c cur' hnext context hv =>
    obtain ⟨hnext', hcur', -⟩ := h.next_char hnext tail
    rw [gather_reject hnext' hv]
    exact .invalid c cur.location context hcur'

theorem UpTo.munch (h : cur.UpTo goal) (accept : Char → Bool) (text : List Char)
    (tail : List Read) :
    Alike tail goal (cur.munch accept text) ((cur.withTail tail).munch accept text) :=
  h.gather (munchRule accept) text.reverse tail

theorem UpTo.operator (h : cur.UpTo goal) (keepNewline : Bool) (first : Char) (start : Location)
    (tail : List Read) :
    Alike tail goal (cur.operator keepNewline first start)
      ((cur.withTail tail).operator keepNewline first start) := by
  rcases hnext : cur.next with ⟨p | _ | second, cur'⟩
  · exact absurd hnext (h.next_ne_error p)
  · obtain ⟨hseen, hlast⟩ := h.next_none hnext tail
    refine .beyond (by simpa [Cursor.operator, hnext] using hseen) hlast ?_
    intro p last' hlast'
    simp only [Cursor.operator, hlast']
  · obtain ⟨hnext', hcur', cur'', hback, hback', hcur''⟩ := h.next_char hnext tail
    unfold Cursor.operator
    simp only [hnext, hnext']
    split
    · exact (hcur'.gather (commentRule keepNewline) ['/', '/'] tail).mapAnswer _
    · simp only [hback, hback']
      exact (hcur''.munch isOperatorSymbol [first] tail).mapAnswer _

/-- The punctuation marks are those of the table. -/
theorem UpTo.mark (h : cur.UpTo goal) (hmark : isPunctuation c = true) (start : Location)
    (tail : List Read) :
    Alike tail goal (cur.mark c start) ((cur.withTail tail).mark c start) := by
  rw [← Token.Kind.isSome_ofMark?, Option.isSome_iff_exists] at hmark
  obtain ⟨kind, hkind⟩ := hmark
  simp only [Cursor.mark, hkind]
  exact .ok _ h

theorem UpTo.lexeme (h : cur.UpTo goal) {k : StartClass} (hk : StartClass.ofChar? c = some k)
    (keepNewline : Bool) (start : Location) (tail : List Read) :
    Alike tail goal (cur.lexeme keepNewline k c start)
      ((cur.withTail tail).lexeme keepNewline k c start) := by
  cases k with
  | letter => exact (h.munch isIdentifierChar [c] tail).mapAnswer _
  | digit => exact (h.munch isDigit [c] tail).mapAnswer _
  | operator => exact h.operator keepNewline c start tail
  | quote => exact (h.gather (literalRule start) ⟨[], false⟩ tail).mapAnswer _
  | space => exact (h.munch isBlank [c] tail).mapAnswer _
  | punctuation => exact h.mark (StartClass.contains_of_ofChar? hk) start tail

theorem UpTo.nextToken (h : cur.UpTo goal) (keepNewline : Bool) (tail : List Read) :
    Alike tail goal (cur.nextToken keepNewline) ((cur.withTail tail).nextToken keepNewline) := by
  rcases hnext : cur.next with ⟨p | _ | c, cur'⟩
  · exact absurd hnext (h.next_ne_error p)
  · obtain ⟨hseen, hlast⟩ := h.next_none hnext tail
    refine .beyond (by simpa [Cursor.nextToken, hnext] using hseen) hlast ?_
    intro p last' hlast'
    simp only [Cursor.nextToken, hlast']
  · obtain ⟨hnext', hcur', -⟩ := h.next_char hnext tail
    unfold Cursor.nextToken
    simp only [hnext, hnext']
    split
    · next k hk => exact (hcur'.lexeme hk keepNewline cur.location tail).mapAnswer some
    · exact .invalid c cur.location none hcur'

/-- Only the end of the text is answered by no token. -/
theorem next_of_nextToken_none {keepNewline : Bool} (h : (cur.nextToken keepNewline).1 = .ok none) :
    cur.next = (.ok none, (cur.nextToken keepNewline).2) := by
  rcases hnext : cur.next with ⟨p | _ | c, cur'⟩
  · simp [Cursor.nextToken, hnext] at h
  · simp [Cursor.nextToken, hnext]
  · -- A character is answered by a token or by an error.
    exfalso
    simp only [Cursor.nextToken, hnext] at h
    split at h
    · next k hk =>
      rcases hlexeme : cur'.lexeme keepNewline k c cur.location with ⟨p | t, cur''⟩
      · rw [hlexeme] at h; cases h
      · rw [hlexeme] at h; cases h
    · cases h

end Cursor

/-! ## §3. One call -/

namespace Lexer

variable {lx lx' : Lexer} {tail : List Read} {goal : Location}

/-- The lexer whose stream goes on with a tail. -/
def withTail (tail : List Read) (lx : Lexer) : Lexer :=
  { lx with cursor := lx.cursor.withTail tail }

/-- The lexer has met no error, and its stream ends at a location, which it has not looked
    behind. -/
structure UpTo (goal : Location) (lx : Lexer) : Prop where
  failure_eq : lx.failure = none
  cursor : lx.cursor.UpTo goal

theorem upTo_ofText (text filename : String) (keepNewline : Bool) :
    (ofText text filename keepNewline).UpTo (.behind filename text.toList) where
  failure_eq := rfl
  cursor := Cursor.upTo_ofText text filename

/-- Closing the cursor after an error hides nothing of what was read. -/
theorem sawEnd_next (hf : lx.failure = none) :
    lx.next.2.cursor.stream.sawEnd =
      (lx.cursor.nextToken lx.keepNewline).2.stream.sawEnd := by
  rcases htoken : lx.cursor.nextToken lx.keepNewline with ⟨p | _ | t, cur⟩
  · cases p with
    | lexical e =>
      rw [next_of_lexical hf htoken]
      exact Cursor.sawEnd_close cur
    | fault f => simp [next, hf, htoken]
    | slotFull held given => simp [next, hf, htoken]
    | notPunctuation c => simp [next, hf, htoken]
  · rw [next_of_none hf htoken]
  · rw [next_of_token hf htoken]

/-- A call delivers the same token from both streams, or finds the same invalid character in both;
    or it meets the end of one stream and comes to the tail of the other one. -/
theorem UpTo.next (h : lx.UpTo goal) (tail : List Read) :
    (∃ t lx', lx.next = (.ok (some t), lx') ∧
      (lx.withTail tail).next = (.ok (some t), lx'.withTail tail) ∧ lx'.UpTo goal) ∨
    (∃ c loc context,
      lx.next.1 = .error (.lexical (.invalidCharacter c (some loc) context)) ∧
      (lx.withTail tail).next.1 = .error (.lexical (.invalidCharacter c (some loc) context)) ∧
      lx.next.2.cursor.stream.sawEnd = false) ∨
    (lx.next.2.cursor.stream.sawEnd = true ∧ ∃ last : Cursor, last.AtTail tail goal ∧
      ∀ p last', last.next = (.error p, last') →
        (lx.withTail tail).cursor.nextToken (lx.withTail tail).keepNewline =
          (.error p, last')) := by
  have hfailure : (lx.withTail tail).failure = none := h.failure_eq
  have hseen_eq := sawEnd_next h.failure_eq
  have halike := h.cursor.nextToken lx.keepNewline tail
  rcases htoken : lx.cursor.nextToken lx.keepNewline with ⟨answer, cur⟩
  rcases htoken' : (lx.cursor.withTail tail).nextToken lx.keepNewline with ⟨answer', cur'⟩
  rw [htoken] at hseen_eq
  rw [htoken, htoken'] at halike
  cases halike with
  | within herror hcur =>
    rw [hcur.sawEnd_eq] at hseen_eq
    rcases answer with p | _ | t
    · obtain ⟨c, loc, context, rfl⟩ := herror p rfl
      right; left
      refine ⟨c, loc, context, ?_, ?_, hseen_eq⟩
      · rw [next_of_lexical h.failure_eq htoken]
      · rw [next_of_lexical hfailure htoken']
    · -- The end of the text cannot be reported by a cursor that has not met it.
      have hend := Cursor.next_of_nextToken_none (congrArg Prod.fst htoken)
      rw [htoken] at hend
      have hseen := (h.cursor.next_none hend tail).1
      rw [hcur.sawEnd_eq] at hseen
      cases hseen
    · left
      exact ⟨t, _, next_of_token h.failure_eq htoken,
        next_of_token hfailure htoken', h.failure_eq, hcur⟩
  | @beyond _ _ last hseen hlast hfail =>
    right; right
    refine ⟨hseen_eq.trans hseen, last, hlast, ?_⟩
    intro p last' hnext
    show (lx.cursor.withTail tail).nextToken lx.keepNewline = _
    rw [htoken', hfail p last' hnext]

/-- A token that was delivered without a look behind the text comes from every stream that begins
    with the text. -/
theorem UpTo.next_token {t : Token} (h : lx.UpTo goal) (hnext : lx.next = (.ok (some t), lx'))
    (hlx' : lx'.UpTo goal) (tail : List Read) :
    (lx.withTail tail).next = (.ok (some t), lx'.withTail tail) := by
  rcases h.next tail with ⟨u, lx1, hnext1, hnext', -⟩ | ⟨c, loc, context, herror, -⟩ | ⟨hseen, -⟩
  · rw [hnext] at hnext1
    cases hnext1
    exact hnext'
  · rw [hnext] at herror
    cases herror
  · rw [hnext, hlx'.cursor.sawEnd_eq] at hseen
    cases hseen

end Lexer

end RpalLex
