import RpalLex.Command.Report
import RpalLex.Listing
import RpalLex.Proofs.QuotedText

/-! # Printed tokens

  A printed token shows its kind, its value, its line and its column, and
  each of them can be read off it.  The fields have no space and no comma
  inside, but for the value, and where the quoted value ends can be told from
  the value itself.

  Everything in a printed token is printable, so no printed token is broken
  into lines, and a list of printed tokens with a line feed behind each of
  them is divided again into the tokens' lines.

  * `Listing.Unambiguous` says this of a way to print tokens.
  * `Text.splitLines` divides a text at its line breaks.

  Main statements: `splitLines_lines` and `unambiguous_line_record`. -/

namespace RpalLex

/-! ## §1. Lines -/

namespace Text

/-- The lines of a text, where `line` has been read of the first one.  A carriage return and the
    line feed behind it are one break; what stands behind the last break is a line unless it is
    empty. -/
def linesFrom (line : List Char) : List Char → List (List Char)
  | [] => if line.isEmpty then [] else [line]
  | '\r' :: '\n' :: cs => line :: linesFrom [] cs
  | c :: cs => if lineBreaks.contains c then line :: linesFrom [] cs else linesFrom (line ++ [c]) cs

/-- The lines of a text, without what breaks them. -/
def splitLines (s : String) : List String := (linesFrom [] s.toList).map String.ofList

/-- No character of the text breaks a line. -/
def OneLine (s : String) : Prop := ∀ c ∈ s.toList, c ∉ lineBreaks

theorem linesFrom_cons {c : Char} (hc : c ∉ lineBreaks) (line cs : List Char) :
    linesFrom line (c :: cs) = linesFrom (line ++ [c]) cs := by
  have hcontains : lineBreaks.contains c = false := by
    rw [List.contains_eq_mem, decide_eq_false hc]
  rw [linesFrom]
  · rw [if_neg (by rw [hcontains]; exact Bool.false_ne_true)]
  · -- A carriage return would break the line.
    rintro cs' rfl -
    exact hc (by decide)

theorem linesFrom_append {u : List Char} (hu : ∀ c ∈ u, c ∉ lineBreaks) (line rest : List Char) :
    linesFrom line (u ++ '\n' :: rest) = (line ++ u) :: linesFrom [] rest := by
  induction u generalizing line with
  | nil =>
    rw [List.append_nil, List.nil_append, linesFrom]
    · rw [if_pos (by decide)]
    · rintro cs' h -
      cases h
  | cons c u ih =>
    obtain ⟨hc, hu⟩ := List.forall_mem_cons.1 hu
    rw [List.cons_append, linesFrom_cons hc, ih hu, List.append_assoc]
    rfl

theorem linesFrom_flatMap {texts : List String} (h : ∀ s ∈ texts, OneLine s) :
    linesFrom [] (texts.flatMap fun s => s.toList ++ ['\n']) = texts.map String.toList := by
  induction texts with
  | nil => rfl
  | cons s texts ih =>
    obtain ⟨hs, htexts⟩ := List.forall_mem_cons.1 h
    rw [List.flatMap_cons, List.append_assoc, List.singleton_append, linesFrom_append hs,
      ih htexts]
    rfl

theorem toList_lines (texts : List String) :
    (Command.lines texts).toList = texts.flatMap fun s => s.toList ++ ['\n'] := by
  rw [Command.lines, String.toList_join, List.flatMap_map]
  congr 1
  funext s
  exact String.toList_append

/-- Texts without line breaks, each with a line feed behind it, are the lines of the whole. -/
theorem splitLines_lines {texts : List String} (h : ∀ s ∈ texts, OneLine s) :
    splitLines (Command.lines texts) = texts := by
  have hback : String.ofList ∘ String.toList = id := funext fun _ => String.ofList_toList
  rw [splitLines, toList_lines, linesFrom_flatMap h, List.map_map, hback, List.map_id]

theorem Printable.oneLine {s : String} (h : Printable s.toList) : OneLine s := by
  intro c hc hbreak
  have hprintable := h c hc
  rw [not_isPrintable_of_mem_lineBreaks hbreak] at hprintable
  cases hprintable

end Text

/-! ## §2. The fields -/

namespace Token.Kind

theorem ofName?_name (k : Kind) : ofName? k.name = some k := by
  cases k with
  | _ => decide

theorem name_inj {k l : Kind} (h : k.name.toList = l.name.toList) : k = l := by
  have hread := congrArg ofName? (String.toList_inj.1 h)
  rw [ofName?_name, ofName?_name] at hread
  exact Option.some.inj hread

theorem printable_name (k : Kind) : Text.Printable k.name.toList := by
  cases k with
  | _ => decide

theorem space_not_mem_name (k : Kind) : ' ' ∉ k.name.toList := by
  cases k with
  | _ => decide

theorem comma_not_mem_name (k : Kind) : ',' ∉ k.name.toList := by
  cases k with
  | _ => decide

end Token.Kind

namespace Listing

open Text Token

variable {t u : Token}

theorem toList_position (t : Token) :
    (position t).toList = decimalDigits t.start.line ++ ':' :: decimalDigits t.start.column := by
  rw [position, String.toList_append, String.toList_append, toList_decimal, toList_decimal,
    List.append_assoc]
  rfl

theorem toList_line (t : Token) :
    (line t).toList = List.rightpad 8 ' ' (position t).toList ++
      ' ' :: (List.rightpad 11 ' ' t.kind.name.toList ++ ' ' :: quotedChars t.value.toList) := by
  rw [line]
  simp only [String.toList_append, toList_padRight, toList_quoted, List.append_assoc]
  rfl

theorem toList_record (t : Token) :
    (record t).toList = "Token(".toList ++ (t.kind.name.toList ++ ',' :: ' ' ::
      (quotedChars t.value.toList ++ ',' :: ' ' :: ((position t).toList ++ [')']))) := by
  rw [record]
  simp only [String.toList_append, toList_quoted, List.append_assoc]
  rfl

theorem not_mem_position {c : Char} (hdecimal : isDecimalChar c = false) (hcolon : c ≠ ':')
    (t : Token) : c ∉ (position t).toList := by
  rw [toList_position, List.mem_append, List.mem_cons]
  rintro (hline | hmark | hcolumn)
  · exact not_mem_decimalDigits hdecimal _ hline
  · exact hcolon hmark
  · exact not_mem_decimalDigits hdecimal _ hcolumn

theorem position_inj (h : (position t).toList = (position u).toList) :
    t.start.line = u.start.line ∧ t.start.column = u.start.column := by
  rw [toList_position, toList_position] at h
  obtain ⟨hline, hcolumn⟩ := fields_inj (not_mem_decimalDigits (by decide) _)
    (not_mem_decimalDigits (by decide) _) h
  exact ⟨decimalDigits_inj.1 hline, decimalDigits_inj.1 hcolumn⟩

/-! ## §3. The whole -/

/-- A way to print tokens that loses nothing but the file, and never breaks a line. -/
structure Unambiguous (print : Token → String) : Prop where
  /-- What is printed is known from the four fields, and they are known from it. -/
  print_eq_iff : ∀ t u : Token, print t = print u ↔
    t.kind = u.kind ∧ t.value = u.value ∧ t.start.line = u.start.line ∧
      t.start.column = u.start.column
  oneLine : ∀ t, OneLine (print t)
  /-- A printed list is divided again into its tokens' lines. -/
  splitLines_eq : ∀ ts : List Token, splitLines (Command.lines (ts.map print)) = ts.map print

/-- Printable characters are enough for whole lists. -/
theorem Unambiguous.of_printable {print : Token → String}
    (hinj : ∀ t u : Token, print t = print u ↔
      t.kind = u.kind ∧ t.value = u.value ∧ t.start.line = u.start.line ∧
        t.start.column = u.start.column)
    (hprintable : ∀ t, Printable (print t).toList) : Unambiguous print := by
  have hline : ∀ t, OneLine (print t) := fun t => (hprintable t).oneLine
  refine ⟨hinj, hline, ?_⟩
  intro ts
  apply splitLines_lines
  intro s hs
  obtain ⟨t, -, rfl⟩ := List.mem_map.1 hs
  exact hline t

theorem line_eq_iff (t u : Token) : line t = line u ↔
    t.kind = u.kind ∧ t.value = u.value ∧ t.start.line = u.start.line ∧
      t.start.column = u.start.column := by
  constructor
  · intro h
    have hchars := congrArg String.toList h
    rw [toList_line, toList_line] at hchars
    obtain ⟨hposition, hrest⟩ := padded_fields_inj (not_mem_position (by decide) (by decide) t)
      (not_mem_position (by decide) (by decide) u) hchars
    obtain ⟨hname, hquoted⟩ := padded_fields_inj t.kind.space_not_mem_name u.kind.space_not_mem_name
      hrest
    obtain ⟨hvalue, -⟩ := quotedChars_inj (congrArg (· ++ []) hquoted)
    exact ⟨Kind.name_inj hname, String.toList_inj.1 hvalue, position_inj hposition⟩
  · rintro ⟨hkind, hvalue, hline, hcolumn⟩
    rw [line, line, position, position, hkind, hvalue, hline, hcolumn]

theorem record_eq_iff (t u : Token) : record t = record u ↔
    t.kind = u.kind ∧ t.value = u.value ∧ t.start.line = u.start.line ∧
      t.start.column = u.start.column := by
  constructor
  · intro h
    have hchars := congrArg String.toList h
    rw [toList_record, toList_record] at hchars
    obtain ⟨hname, hrest⟩ := fields_inj t.kind.comma_not_mem_name u.kind.comma_not_mem_name
      (List.append_cancel_left hchars)
    -- The value may hold anything, but its quoted form shows where it ends.
    obtain ⟨hvalue, hbehind⟩ := quotedChars_inj (List.cons.inj hrest).2
    have hposition : (position t).toList = (position u).toList :=
      List.append_cancel_right (List.cons.inj (List.cons.inj hbehind).2).2
    exact ⟨Kind.name_inj hname, String.toList_inj.1 hvalue, position_inj hposition⟩
  · rintro ⟨hkind, hvalue, hline, hcolumn⟩
    rw [record, record, position, position, hkind, hvalue, hline, hcolumn]

theorem printable_position (t : Token) : Printable (position t).toList := by
  rw [toList_position, printable_append, printable_cons]
  exact ⟨printable_decimalDigits _, by decide, printable_decimalDigits _⟩

theorem printable_line (t : Token) : Printable (line t).toList := by
  have hspace : isPrintable ' ' = true := by decide
  rw [toList_line]
  simp only [printable_append, printable_cons]
  refine ⟨?_, hspace, ?_, hspace, printable_quotedChars _⟩
  · exact printable_rightpad (printable_position t) 8
  · exact printable_rightpad t.kind.printable_name 11

theorem printable_record (t : Token) : Printable (record t).toList := by
  have hcomma : isPrintable ',' = true := by decide
  have hspace : isPrintable ' ' = true := by decide
  rw [toList_record]
  simp only [printable_append, printable_cons]
  exact ⟨by decide, t.kind.printable_name, hcomma, hspace, printable_quotedChars _, hcomma, hspace,
    printable_position t, by decide, by decide⟩

/-- Both ways to print a token tell tokens apart by kind, value, line and column, and keep to one
    line for each token. -/
theorem unambiguous_line_record : Unambiguous line ∧ Unambiguous record :=
  ⟨.of_printable line_eq_iff printable_line, .of_printable record_eq_iff printable_record⟩

end Listing

end RpalLex
