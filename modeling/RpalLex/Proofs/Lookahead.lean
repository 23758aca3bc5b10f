import RpalLex.Proofs.Calls
import RpalLex.Proofs.Conservation

/-! # Progress and lookahead

  What remains of a text is in the slot and in the stream.  A call that
  delivers a token takes the token off the front of it, and the line feed
  behind a comment unless line feeds are kept, and nothing else.  To find out
  where a token ends it takes at most one character more out of the stream.

  * `Cursor.Takes` says what one such call does to the cursor.
  * Every token is at least one character, so a run over a text has at most as
    many tokens as the text has characters.

  Main statements: `Lexer.Before.takes` (one call), `Delivers.length_add_size_le` (a
  run) and `next_takes`. -/

namespace RpalLex

/-! ## §1. What remains -/

/-- The character that a read gives, if it gives one. -/
def Read.char? : Read → Option Char
  | char c => some c
  | endOfText | fault _ => none

/-- What is still to come from a text: the slot, and then the characters in the stream. -/
def Cursor.remaining (cur : Cursor) : List Char :=
  cur.slot.toList ++ cur.stream.script.filterMap Read.char?

/-- The line feed that a token takes along, if `following` comes behind it: the one at the end of a
    comment, unless line feeds are kept. -/
def Token.lineFeed (keepNewline : Bool) (t : Token) (following : List Char) : List Char :=
  if keepNewline = false ∧ t.kind = .comment ∧ following.head? = some '\n' then ['\n'] else []

/-- What a call that delivers a token does to the cursor. -/
structure Cursor.Takes (keepNewline : Bool) (t : Token) (cur cur' : Cursor) : Prop where
  /-- A token is never empty. -/
  text_pos : 0 < t.text.length
  /-- The token and its line feed come off the front of what remains. -/
  remaining_eq : cur.remaining =
    t.text.toList ++ t.lineFeed keepNewline (cur.remaining.drop t.text.length) ++ cur'.remaining
  /-- So this is by how much what remains gets shorter. -/
  size_eq : cur.size =
    cur'.size + t.text.length + (t.lineFeed keepNewline (cur.remaining.drop t.text.length)).length
  /-- Of what remains, at most one character has been taken out of the stream. -/
  lookahead_le : cur'.remaining.length ≤ cur'.stream.script.length + 1
  /-- A token that does not end because of what follows it leaves the slot empty. -/
  slot_eq_none : t.kind.peeks keepNewline = false → cur'.slot = none
  /-- Any other token leaves the next character in the slot, unless there is none. -/
  slot_eq_next : t.kind.peeks keepNewline = true →
    (∃ c rest, cur'.remaining = c :: rest ∧ cur'.slot = some c) ∨
      cur'.remaining = [] ∧ cur'.isOpen = false

namespace Cursor

variable {cur : Cursor} {loc : Location} {r : List Char}

theorem filterMap_char? (cs : List Char) : (cs.map Read.char).filterMap Read.char? = cs := by
  induction cs with
  | nil => rfl
  | cons c cs ih =>
    rw [List.map_cons, List.filterMap_cons]
    show c :: (cs.map Read.char).filterMap Read.char? = c :: cs
    rw [ih]

/-- In front of a text the slot and the stream hold the text. -/
theorem Drained.remaining_eq (hd : cur.Drained) (h : cur.Before loc r) : cur.remaining = r := by
  obtain ⟨unread, hscript, hr⟩ := hd.eq_slot_append h
  unfold remaining
  rw [hscript, filterMap_char?, hr]

theorem Drained.size_eq (hd : cur.Drained) : cur.size = cur.remaining.length := by
  obtain ⟨unread, hscript⟩ := hd.chars
  unfold size remaining
  rw [hscript, filterMap_char?, List.length_append, List.length_map]

theorem length_remaining_le (cur : Cursor) :
    cur.remaining.length ≤ cur.stream.script.length + 1 := by
  have hslot : cur.slot.toList.length ≤ 1 := by cases cur.slot <;> simp
  have hscript := List.length_filterMap_le Read.char? cur.stream.script
  unfold remaining
  rw [List.length_append]
  omega

end Cursor

/-! ## §2. One call -/

/-- The line feed that was dropped behind a comment is the character that follows it. -/
theorem FrontOf.dropped_eq_lineFeed {keepNewline : Bool} {r rest : List Char} {p : Piece}
    (h : FrontOf keepNewline r (.piece p rest)) (loc : Location) :
    p.dropped = (p.token loc).lineFeed keepNewline (p.dropped ++ rest) := by
  have hdropped := h.dropped_eq
  by_cases hfeed : keepNewline = false ∧ p.kind = .comment ∧ p.dropped ++ rest ≠ []
  · rw [if_pos hfeed] at hdropped
    have hhead : (p.dropped ++ rest).head? = some '\n' := by
      rw [hdropped]
      rfl
    rw [Token.lineFeed, if_pos ⟨hfeed.1, hfeed.2.1, hhead⟩, hdropped]
  · rw [if_neg hfeed] at hdropped
    rw [Token.lineFeed, if_neg, hdropped]
    intro hhead
    apply hfeed
    refine ⟨hhead.1, hhead.2.1, ?_⟩
    intro hnil
    rw [hnil] at hhead
    cases hhead.2.2

namespace Lexer

variable {keepNewline : Bool} {lx lx' : Lexer} {loc : Location} {r : List Char} {t : Token}
  {ts : List Token}

theorem Before.takes (h : lx.Before keepNewline loc r) (hd : lx.cursor.Drained)
    (hnext : lx.next = (.ok (some t), lx')) :
    Cursor.Takes keepNewline t lx.cursor lx'.cursor := by
  obtain ⟨p, rest, hp, rfl, hlx', hleft⟩ := h.of_next_token hnext
  have hd' : lx'.cursor.Drained := Cursor.preserved_drained.next_token hnext hd
  have hremaining := hd.remaining_eq h.cursor
  have hremaining' := hd'.remaining_eq hlx'.cursor
  have htext : (p.token loc).text.length = p.text.length := by
    rw [← String.length_toList, Piece.text_token]
  have hr : r = p.text ++ (p.dropped ++ rest) := by
    rw [hp.eq_source_append, Piece.source, List.append_assoc]
  -- Behind the token comes what was dropped, and then what remains.
  have hfollowing : lx.cursor.remaining.drop (p.token loc).text.length = p.dropped ++ rest := by
    rw [hremaining, htext, hr, List.drop_left]
  have hfeed := hp.dropped_eq_lineFeed loc
  constructor
  case text_pos =>
    rw [htext]
    exact List.length_pos_iff.2 hp.text_ne_nil
  case remaining_eq =>
    rw [hfollowing, ← hfeed, hremaining, hremaining', Piece.text_token, hr, List.append_assoc]
  case size_eq =>
    rw [hd.size_eq, hd'.size_eq, hfollowing, ← hfeed, hremaining, hremaining', htext, hr]
    simp only [List.length_append]
    omega
  case lookahead_le => exact Cursor.length_remaining_le _
  case slot_eq_none =>
    intro hpeeks
    have hkind : p.kind.peeks keepNewline = false := hpeeks
    rw [Cursor.Left, hkind, if_neg Bool.false_ne_true] at hleft
    exact hleft.slot_eq
  case slot_eq_next =>
    intro hpeeks
    have hkind : p.kind.peeks keepNewline = true := hpeeks
    rw [Cursor.Left, hkind, if_pos rfl] at hleft
    rw [hremaining']
    cases rest with
    | nil => exact .inr ⟨rfl, hleft.isOpen_eq rfl⟩
    | cons c rest => exact .inl ⟨c, rest, rfl, hleft.slot_eq⟩

/-! ## §3. Runs -/

/-- Every token of a run takes at least one character, whatever the stream is. -/
theorem Delivers.length_add_size_le (h : lx.Delivers ts lx') :
    ts.length + lx'.size ≤ lx.size := by
  induction h with
  | nil lx => simp
  | @cons lx lx1 lx' t ts hnext _ ih =>
    have hlt := size_next_lt hnext
    rw [List.length_cons]
    omega

theorem size_ofText (text filename : String) (keepNewline : Bool) :
    (ofText text filename keepNewline).size = text.length := by
  show ([] : List Char).length + (text.toList.map Read.char).length = text.length
  rw [List.length_map, String.length_toList, List.length_nil, Nat.zero_add]

/-- What an iteration counts are the tokens of the run, those that it skips included. -/
theorem tokenCount_collect {problem : Option Problem} (h : lx.Delivers ts lx')
    (hending : lx'.next.1 = ending problem) (screened : Bool) :
    (lx.collect screened).lexer.tokenCount = lx.tokenCount + ts.length := by
  have hlast := tokenCount_next lx'
  have hnone : tokenOf lx'.next.1 = none := by
    rw [hending]
    cases problem with
    | none => rfl
    | some p => rfl
  rw [hnone] at hlast
  rw [h.collect hending screened]
  show lx'.next.2.tokenCount = lx.tokenCount + ts.length
  rw [hlast, h.tokenCount_eq]
  rfl

end Lexer

/-- After any number of calls over a text, one more call brings a token or the end or fails with a
    lexical error.  If it brings a token, the token stands at the front of the part of the text
    that remained and is taken off it with its line feed, if there is one to be taken along; and no
    more than the next character has been looked at, which then waits in the slot.  So an iteration
    over a text takes at most as many tokens as there are characters. -/
theorem next_takes (text filename : String) (keepNewline : Bool) :
    (∀ n,
      let lx := (Lexer.ofText text filename keepNewline).afterCalls n
      ((∃ t, lx.next.1 = .ok t) ∨ ∃ e, lx.next.1 = .error (.lexical e)) ∧
      ∀ t lx', lx.next = (.ok (some t), lx') →
        lx.cursor.remaining <:+ text.toList ∧
        Cursor.Takes keepNewline t lx.cursor lx'.cursor) ∧
    ∀ screened,
      let r := (Lexer.ofText text filename keepNewline).collect screened
      r.tokens.length ≤ text.length ∧ r.lexer.tokenCount ≤ text.length := by
  have hstart := Lexer.before_ofText text filename keepNewline
  constructor
  · intro n lx
    obtain ⟨ts, lx1, hrun, hcalls⟩ := hstart.delivers_of_afterCalls n
    obtain ⟨ps, rest, hps, -, hlx1⟩ := hrun.cuts hstart
    constructor
    · -- The answer is that of a lexer that stands in front of a text.
      have hsame : ∃ lx2 : Lexer, lx.next.1 = lx2.next.1 ∧ lx2 = lx1 := by
        rcases hcalls with ⟨-, hlx⟩ | ⟨-, -, hanswer⟩
        · exact ⟨lx, rfl, hlx⟩
        · exact ⟨lx1, hanswer, rfl⟩
      obtain ⟨_, hanswer, rfl⟩ := hsame
      obtain ⟨o, ho⟩ := exists_frontOf keepNewline rest
      rw [hanswer, hlx1.answer_next ho]
      cases o with
      | ended => exact .inl ⟨_, rfl⟩
      | piece p rest' => exact .inl ⟨_, rfl⟩
      | invalid before c context => exact .inr ⟨_, rfl⟩
      | unterminated => exact .inr ⟨_, rfl⟩
    · intro t lx' hnext
      rcases hcalls with ⟨-, hlx⟩ | ⟨-, hno, hanswer⟩
      · obtain rfl : lx = lx1 := hlx
        have hd := Cursor.preserved_drained.delivers hrun (Cursor.drained_ofText text filename)
        refine ⟨?_, hlx1.takes hd hnext⟩
        rw [hd.remaining_eq hlx1.cursor, hps.eq_sources_append]
        exact List.suffix_append _ _
      · -- No token is delivered after a call without one.
        have htoken : lx.next.1 = .ok (some t) := by rw [hnext]
        exact absurd (hanswer.symm.trans htoken) (hno t)
  · intro screened r
    obtain ⟨ts, problem, lx', hrun, hending⟩ := exists_finishes text filename keepNewline
    have hlength : ts.length ≤ text.length := by
      have hle := hrun.length_add_size_le
      rw [Lexer.size_ofText] at hle
      omega
    have hcount := Lexer.tokenCount_collect hrun hending screened
    have htokens : r.tokens = Token.passed screened ts := by
      show ((Lexer.ofText text filename keepNewline).collect screened).tokens = _
      rw [hrun.collect hending screened]
    constructor
    · have hpassed : (Token.passed screened ts).length ≤ ts.length := List.length_filter_le _ _
      rw [htokens]
      omega
    · show ((Lexer.ofText text filename keepNewline).collect screened).lexer.tokenCount ≤ _
      rw [hcount]
      show 0 + ts.length ≤ text.length
      omega

/-- A comment takes its line feed along and looks no further.  The operator in the next line ends
    because of the letter behind it, which waits in the slot. -/
theorem next_takes_comment :
    let first := Lexer.ofText "//a\n+b" "f" false
    let second := first.afterCalls 1
    (∃ t lx, first.next = (.ok (some t), lx) ∧ t.text = "//a" ∧
      first.cursor.remaining = t.text.toList ++ ['\n'] ++ lx.cursor.remaining ∧
      first.cursor.size = lx.cursor.size + 4 ∧ lx.cursor.slot = none) ∧
    (∃ t lx, second.next = (.ok (some t), lx) ∧ t.text = "+" ∧
      second.cursor.size = lx.cursor.size + 1 ∧ lx.cursor.slot = some 'b') ∧
    (first.collect true).lexer.tokenCount ≤ 6 := by
  intro first second
  have hfirst : first.next.1 = .ok (some ⟨.comment, "//a", ⟨"f", 1, 1⟩⟩) := by decide +kernel
  have hsecond : second.next.1 = .ok (some ⟨.operator, "+", ⟨"f", 2, 1⟩⟩) := by decide +kernel
  have hletter : second.next.2.cursor.remaining = ['b'] := by decide +kernel
  obtain ⟨hcalls, hiteration⟩ := next_takes "//a\n+b" "f" false
  have hcomment := ((hcalls 0).2 _ _ (Prod.ext hfirst rfl)).2
  have hoperator := ((hcalls 1).2 _ _ (Prod.ext hsecond rfl)).2
  have hslot : second.next.2.cursor.slot = some 'b' := by
    rcases hoperator.slot_eq_next rfl with ⟨c, rest, hremaining, hc⟩ | ⟨hnil, -⟩
    · obtain ⟨rfl, -⟩ := List.cons.inj (hletter.symm.trans hremaining)
      exact hc
    · cases hletter.symm.trans hnil
  refine ⟨⟨_, _, Prod.ext hfirst rfl, rfl, ?_, ?_, ?_⟩, ?_, (hiteration true).2⟩
  · exact hcomment.remaining_eq
  · exact hcomment.size_eq
  · exact hcomment.slot_eq_none rfl
  · exact ⟨_, _, Prod.ext hsecond rfl, rfl, hoperator.size_eq, hslot⟩

end RpalLex
