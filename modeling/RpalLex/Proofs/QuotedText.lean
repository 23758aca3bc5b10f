import RpalLex.Proofs.Numerals
import RpalLex.Text.Quoted

/-! # Reading quoted text back

  Between its marks, a quoted text is read one character at a time.  A
  backslash announces an escape, and the character behind it tells how long
  the escape is; the mark itself never stands there without a backslash.  So
  the first mark that is not part of an escape is the end, and a quoted text
  stands for one text, whatever comes behind it.

  All characters of a quoted text are printable.

  Main statements: `readEscaped_escaped` (one character), `readUpTo_flatMap`
  (from one character to a text), `quotedChars_inj` and
  `printable_quotedChars`. -/

namespace RpalLex.Text

variable {mark c : Char} {s t : List Char}

/-! ## §1. Up to a mark -/

/-- Reads characters one by one up to the mark, of which there have to be fewer than `bound`.  The
    answer is what was read, and what follows the mark. -/
def readWithin (read : List Char → Option (Char × List Char)) (mark : Char) :
    Nat → List Char → Option (List Char × List Char)
  | 0, _ => none
  | bound + 1, cs =>
    if cs.head? = some mark then some ([], cs.tail)
    else
      match read cs with
      | some (c, rest) => (readWithin read mark bound rest).map fun (s, after) => (c :: s, after)
      | none => none

/-- Reads characters one by one up to the mark. -/
def readUpTo (read : List Char → Option (Char × List Char)) (mark : Char) (cs : List Char) :
    Option (List Char × List Char) :=
  readWithin read mark cs.length cs

section

variable {read : List Char → Option (Char × List Char)} {write : Char → List Char}
  (hread : ∀ c rest, read (write c ++ rest) = some (c, rest))
  (hmark : ∀ c rest, (write c ++ rest).head? ≠ some mark)

include hmark

/-- A character that never begins like the mark is not written as nothing. -/
theorem length_le_length_flatMap (s : List Char) : s.length ≤ (s.flatMap write).length := by
  induction s with
  | nil => exact Nat.le_refl 0
  | cons c s ih =>
    have hpos : 0 < (write c).length := by
      refine List.length_pos_iff.2 fun hnil => hmark c [mark] ?_
      rw [hnil]
      rfl
    rw [List.length_cons, List.flatMap_cons, List.length_append]
    omega

include hread

theorem readWithin_flatMap {bound : Nat} (hbound : s.length < bound) (rest : List Char) :
    readWithin read mark bound (s.flatMap write ++ mark :: rest) = some (s, rest) := by
  induction s generalizing bound with
  | nil =>
    obtain ⟨bound, rfl⟩ := Nat.exists_eq_add_one_of_ne_zero (Nat.ne_zero_of_lt hbound)
    rw [List.flatMap_nil, List.nil_append, readWithin, if_pos List.head?_cons]
    rfl
  | cons c s ih =>
    obtain ⟨bound, rfl⟩ := Nat.exists_eq_add_one_of_ne_zero (Nat.ne_zero_of_lt hbound)
    rw [List.length_cons] at hbound
    rw [List.flatMap_cons, List.append_assoc, readWithin, if_neg (hmark c _), hread]
    show (readWithin read mark bound (s.flatMap write ++ mark :: rest)).map _ = _
    rw [ih (by omega)]
    rfl

/-- If single characters are read back as they were written, whatever follows them, and never begin
    like the mark, then so it is for texts. -/
theorem readUpTo_flatMap (s rest : List Char) :
    readUpTo read mark (s.flatMap write ++ mark :: rest) = some (s, rest) := by
  have hlength := length_le_length_flatMap hmark s
  apply readWithin_flatMap hread hmark
  rw [List.length_append, List.length_cons]
  omega

end

/-! ## §2. One character -/

/-- A code point of `width` digits, and what follows. -/
def readCodePoint (width : Nat) (cs : List Char) : Option (Char × List Char) :=
  (readHex width cs).map fun (n, rest) => (Char.ofNat n, rest)

/-- The character of an escape, and what follows.  The backslash has been read. -/
def readEscape : List Char → Option (Char × List Char)
  | 'n' :: cs => some ('\n', cs)
  | 'r' :: cs => some ('\r', cs)
  | 't' :: cs => some ('\t', cs)
  | 'x' :: cs => readCodePoint 2 cs
  | 'u' :: cs => readCodePoint 4 cs
  | 'U' :: cs => readCodePoint 8 cs
  | c :: cs => some (c, cs)
  | [] => none

/-- The first character of what stands between two marks, and what follows. -/
def readEscaped : List Char → Option (Char × List Char)
  | [] => none
  | c :: cs => if c = '\\' then readEscape cs else some (c, cs)

theorem readCodePoint_hexDigits {width : Nat} (hwidth : 0 < width) (c : Char)
    (hc : c.toNat < 16 ^ width) (rest : List Char) :
    readCodePoint width (hexDigits width c.toNat ++ rest) = some (c, rest) := by
  rw [readCodePoint, readHex_hexDigits hwidth hc]
  show some (Char.ofNat c.toNat, rest) = some (c, rest)
  rw [Char.ofNat_toNat]

/-- The code points of characters lie on either side of the surrogates. -/
theorem toNat_cases (c : Char) : c.toNat < 0xd800 ∨ 0xdfff < c.toNat ∧ c.toNat < 0x110000 := by
  have hvalid := c.valid
  simp only [UInt32.isValidChar, Nat.isValidChar] at hvalid
  exact hvalid

/-- The digit in front tells the width. -/
theorem readEscaped_codePoint (c : Char) (rest : List Char) :
    readEscaped (codePoint c.toNat ++ rest) = some (c, rest) := by
  unfold codePoint
  by_cases hbyte : c.toNat < 0x100
  · rw [if_pos hbyte]
    exact readCodePoint_hexDigits (by decide) c hbyte rest
  · rw [if_neg hbyte]
    by_cases hshort : c.toNat < 0x10000
    · rw [if_pos hshort]
      exact readCodePoint_hexDigits (by decide) c hshort rest
    · rw [if_neg hshort]
      have hlong := toNat_cases c
      exact readCodePoint_hexDigits (by decide) c (by omega) rest

/-- Every character is read back from its escaped form, whatever follows. -/
theorem readEscaped_escaped (hmark : mark = '\'' ∨ mark = '"') (c : Char) (rest : List Char) :
    readEscaped (escaped mark c ++ rest) = some (c, rest) := by
  unfold escaped
  by_cases hself : c = mark ∨ c = '\\'
  · -- Neither a mark nor the backslash is a letter that announces something else.
    rw [if_pos hself]
    have hc : c = '\'' ∨ c = '"' ∨ c = '\\' := by
      rcases hself with rfl | rfl
      · exact hmark.imp_right .inl
      · exact .inr (.inr rfl)
    rcases hc with rfl | rfl | rfl
    · rfl
    · rfl
    · rfl
  · rw [if_neg hself]
    by_cases hfeed : c = '\n'
    · subst hfeed
      rfl
    by_cases hreturn : c = '\r'
    · subst hreturn
      rfl
    by_cases htab : c = '\t'
    · subst htab
      rfl
    rw [if_neg hfeed, if_neg hreturn, if_neg htab]
    by_cases hprintable : isPrintable c = true
    · rw [if_pos hprintable]
      show (if c = '\\' then readEscape rest else some (c, rest)) = some (c, rest)
      rw [if_neg fun h => hself (.inr h)]
    · rw [if_neg hprintable]
      exact readEscaped_codePoint c rest

/-- The mark never stands where a character begins: it would be read as itself. -/
theorem head?_escaped_append (hmark : mark = '\'' ∨ mark = '"') (c : Char) (rest : List Char) :
    (escaped mark c ++ rest).head? ≠ some mark := by
  intro h
  obtain ⟨more, hmore⟩ := List.head?_eq_some_iff.1 h
  have hread := readEscaped_escaped hmark c rest
  have hself : readEscaped (mark :: more) = some (mark, more) := by
    rcases hmark with rfl | rfl
    · rfl
    · rfl
  rw [hmore, hself] at hread
  obtain ⟨rfl, rfl⟩ := Prod.mk.inj (Option.some.inj hread)
  rw [escaped, if_pos (.inl rfl)] at hmore
  rcases hmark with rfl | rfl
  · cases hmore
  · cases hmore

/-! ## §3. A text -/

theorem quotationMark_cases (s : List Char) : quotationMark s = '\'' ∨ quotationMark s = '"' := by
  unfold quotationMark
  split
  · exact .inr rfl
  · exact .inl rfl

/-- The text at the front that is quoted, and what follows it. -/
def unquoted? : List Char → Option (List Char × List Char)
  | [] => none
  | mark :: cs => readUpTo readEscaped mark cs

/-- A quoted text is read back, whatever follows it. -/
theorem unquoted?_quotedChars (s rest : List Char) :
    unquoted? (quotedChars s ++ rest) = some (s, rest) := by
  have hmark := quotationMark_cases s
  have hread := readUpTo_flatMap (readEscaped_escaped hmark) (head?_escaped_append hmark) s rest
  simp only [quotedChars, List.cons_append, List.append_assoc]
  exact hread

/-- A quoted text stands for one text, and it can be told where it ends. -/
theorem quotedChars_inj {rest more : List Char}
    (h : quotedChars s ++ rest = quotedChars t ++ more) : s = t ∧ rest = more := by
  have hread := congrArg unquoted? h
  rw [unquoted?_quotedChars, unquoted?_quotedChars] at hread
  exact Prod.mk.inj (Option.some.inj hread)

/-- A line feed is not shown like a backslash with a letter behind it. -/
example : quotedChars ['\n'] = ['\'', '\\', 'n', '\''] ∧
    quotedChars ['\\', 'n'] = ['\'', '\\', '\\', 'n', '\''] := by decide

/-! ## §4. Printable text -/

/-- Every character of the text is printable. -/
def Printable (s : List Char) : Prop := ∀ c ∈ s, isPrintable c = true

instance (s : List Char) : Decidable (Printable s) :=
  decidable_of_iff (s.all isPrintable = true) List.all_eq_true

@[simp] theorem printable_cons : Printable (c :: s) ↔ isPrintable c = true ∧ Printable s :=
  List.forall_mem_cons

@[simp] theorem printable_append : Printable (s ++ t) ↔ Printable s ∧ Printable t :=
  List.forall_mem_append

theorem isPrintable_of_digitValue? (h : (digitValue? c).isSome = true) : isPrintable c = true := by
  have hrange : ∀ {a b : Char}, 0x20 ≤ a.toNat → b.toNat ≤ 0x7e → a ≤ c ∧ c ≤ b →
      isPrintable c = true := by
    intro a b ha hb hc
    have hlow : a.toNat ≤ c.toNat := hc.1
    have hhigh : c.toNat ≤ b.toNat := hc.2
    exact isPrintable_of_ascii (by omega) (by omega)
  unfold digitValue? at h
  split at h
  · next hc => exact hrange (by decide) (by decide) hc
  split at h
  · next hc => exact hrange (by decide) (by decide) hc
  split at h
  · next hc => exact hrange (by decide) (by decide) hc
  · cases h

theorem printable_decimalDigits (n : Int) : Printable (decimalDigits n) := by
  intro c hc
  rcases Bool.or_eq_true_iff.1 (isDecimalChar_of_mem_decimalDigits hc) with hsign | hdigit
  · rw [beq_iff_eq.1 hsign]
    decide
  · obtain ⟨hlow, hhigh⟩ := Char.isDigit_iff_toNat.1 hdigit
    exact isPrintable_of_ascii (Nat.le_trans (by decide) hlow) (Nat.le_trans hhigh (by decide))

theorem printable_of_numeral? {base n : Nat} (h : numeral? base s = some n) : Printable s := by
  intro c hc
  exact isPrintable_of_digitValue? (isSome_digitValue?_of_numeral? h c hc)

theorem printable_hexDigits (width n : Nat) : Printable (hexDigits width n) :=
  printable_of_numeral? (numeral?_hexDigits width n)

theorem printable_upperHex (width n : Nat) : Printable (upperHex width n).toList :=
  printable_of_numeral? (numeral?_upperHex width n)

theorem printable_rightpad (h : Printable s) (width : Nat) :
    Printable (List.rightpad width ' ' s) := by
  have hspaces : Printable (List.replicate (width - s.length) ' ') := by
    intro c hc
    rw [List.eq_of_mem_replicate hc]
    decide
  exact printable_append.2 ⟨h, hspaces⟩

theorem printable_codePoint (n : Nat) : Printable (codePoint n) := by
  have hletter : ∀ letter width, Printable ['\\', letter] →
      Printable ('\\' :: letter :: hexDigits width n) := by
    intro letter width hprintable
    exact printable_append.2 ⟨hprintable, printable_hexDigits width n⟩
  unfold codePoint
  by_cases hbyte : n < 0x100
  · rw [if_pos hbyte]
    exact hletter 'x' 2 (by decide)
  rw [if_neg hbyte]
  by_cases hshort : n < 0x10000
  · rw [if_pos hshort]
    exact hletter 'u' 4 (by decide)
  · rw [if_neg hshort]
    exact hletter 'U' 8 (by decide)

/-- What is not printable is escaped, and an escape is all printable. -/
theorem printable_escaped (hmark : isPrintable mark = true) (c : Char) :
    Printable (escaped mark c) := by
  unfold escaped
  by_cases hself : c = mark ∨ c = '\\'
  · rw [if_pos hself, printable_cons, printable_cons]
    refine ⟨by decide, ?_, by decide⟩
    rcases hself with rfl | rfl
    · exact hmark
    · decide
  rw [if_neg hself]
  by_cases hfeed : c = '\n'
  · rw [if_pos hfeed]
    decide
  rw [if_neg hfeed]
  by_cases hreturn : c = '\r'
  · rw [if_pos hreturn]
    decide
  rw [if_neg hreturn]
  by_cases htab : c = '\t'
  · rw [if_pos htab]
    decide
  rw [if_neg htab]
  by_cases hprintable : isPrintable c = true
  · rw [if_pos hprintable]
    exact List.forall_mem_singleton.2 hprintable
  · rw [if_neg hprintable]
    exact printable_codePoint c.toNat

theorem printable_quotedChars (s : List Char) : Printable (quotedChars s) := by
  have hmark : isPrintable (quotationMark s) = true := by
    rcases quotationMark_cases s with hmark | hmark
    · rw [hmark]
      decide
    · rw [hmark]
      decide
  have hbody : Printable (s.flatMap (escaped (quotationMark s))) := by
    intro c hc
    obtain ⟨d, -, hd⟩ := List.mem_flatMap.1 hc
    exact printable_escaped hmark d c hd
  exact printable_append.2 ⟨printable_cons.2 ⟨hmark, hbody⟩, List.forall_mem_singleton.2 hmark⟩

end RpalLex.Text
