import RpalLex.Proofs.Iteration
import RpalLex.Proofs.QuotedText

/-! # What the text of an error tells

  The text of a lexical error begins with the name of a file, which may hold
  anything, so it is taken apart from its end.  How it ends tells what kind of
  error it is, and the place it speaks of.  In front of that stand the digits
  of a code point, which hold no plus sign; and in front of them, once the
  quoted character is known, two numbers that hold no colon.

  Main statements: `Location.text_inj`, `LexError.located_of_finishes` (the errors
  of a run over a text are such errors) and `LexError.text_eq_iff`. -/

namespace RpalLex

open Text

/-! ## §1. Locations -/

theorem Location.toList_text (loc : Location) :
    loc.text.toList = (loc.filename.toList ++ ':' :: decimalDigits loc.line) ++
      ':' :: decimalDigits loc.column := by
  rw [text]
  simp only [String.toList_append, toList_decimal, List.append_assoc]
  rfl

theorem Location.filename_after (loc : Location) (cs : List Char) :
    (loc.after cs).filename = loc.filename := by
  induction cs generalizing loc with
  | nil => rfl
  | cons c cs ih =>
    rw [after_cons, ih, advance]
    split
    · rfl
    · rfl

/-- The last two numbers of a location are its line and its column, whatever its file is called. -/
theorem Location.text_inj {loc loc' : Location} (h : loc.text.toList = loc'.text.toList) :
    loc = loc' := by
  have hcolon : ∀ n, ':' ∉ decimalDigits n := not_mem_decimalDigits (by decide)
  rw [toList_text, toList_text] at h
  obtain ⟨hfront, hcolumn⟩ := fields_inj_right (hcolon _) (hcolon _) h
  obtain ⟨hfile, hline⟩ := fields_inj_right (hcolon _) (hcolon _) hfront
  obtain ⟨filename, line, column⟩ := loc
  obtain ⟨filename', line', column'⟩ := loc'
  rw [Location.mk.injEq]
  exact ⟨String.toList_inj.1 hfile, decimalDigits_inj.1 hline, decimalDigits_inj.1 hcolumn⟩

namespace LexError

/-! ## §2. Errors with a location -/

/-- Where a character may be wrong: at the start of a token, or in one of two places. -/
def contexts : List (Option String) := [none, some "comment", some "string literal"]

/-- The errors that a text has at some location. -/
inductive Located : LexError → Prop where
  | unterminatedString (loc : Location) : Located (.unterminatedString (some loc))
  | invalidCharacter (c : Char) (loc : Location) {context : Option String}
      (hcontext : context ∈ contexts) : Located (.invalidCharacter c (some loc) context)

/-- Every error that a run over a text ends with is one of them, and its location is in the text's
    file. -/
theorem located_of_finishes {text filename : String} {keepNewline : Bool} {ts : List Token}
    {problem : Problem}
    (h : (Lexer.ofText text filename keepNewline).Finishes ts (some problem)) :
    ∃ e, problem = .lexical e ∧ Located e ∧ e.location.map Location.filename = some filename := by
  have hstart := Lexer.before_ofText text filename keepNewline
  rcases cuts_cases keepNewline text.toList with
    ⟨ps, hps⟩ | ⟨ps, rest, before, c, context, hps, ho⟩ | ⟨ps, rest, hps, ho⟩
  · have hproblem := (h.unique (hps.finishes .ended (by simp) hstart)).2
    cases hproblem
  · have hproblem := (h.unique (hps.finishes ho (by simp) hstart)).2
    refine ⟨_, Option.some.inj hproblem, .invalidCharacter _ _ ?_, ?_⟩
    · cases ho with
      | stray => decide
      | strayInComment => decide
      | strayInString => decide
    · show some ((Location.after _ before).filename) = some filename
      rw [Location.filename_after, Location.filename_after]
      rfl
  · have hproblem := (h.unique (hps.finishes ho (by simp) hstart)).2
    refine ⟨_, Option.some.inj hproblem, .unterminatedString _, ?_⟩
    show some ((Location.after _ (sources ps)).filename) = some filename
    rw [Location.filename_after]
    rfl

/-! ## §3. The parts of a text -/

/-- What stands behind the location of an unterminated literal. -/
def unterminatedText : List Char :=
  ": error: ".toList ++ ("unterminated string literal".toList ++
    ("\nhint: ".toList ++ "add a closing \"'\" to complete the string".toList))

/-- What stands between the location of an invalid character and its code point. -/
def wording (c : Char) : List Char :=
  ": error: ".toList ++ ("invalid character ".toList ++ (quotedChars [c] ++ " (U".toList))

/-- What stands behind the code point of an invalid character. -/
def closing (context : Option String) : List Char :=
  ')' :: match given? context with
    | some place => " in ".toList ++ place.toList
    | none => []

theorem toList_text_unterminatedString (loc : Location) :
    (unterminatedString (some loc)).text.toList = loc.text.toList ++ unterminatedText := by
  show (loc.text ++ ": error: " ++ "unterminated string literal" ++
    ("\nhint: " ++ "add a closing \"'\" to complete the string")).toList = _
  unfold unterminatedText
  simp only [String.toList_append, List.append_assoc]

theorem toList_text_invalidCharacter (c : Char) (loc : Location) (context : Option String) :
    (invalidCharacter c (some loc) context).text.toList =
      ((loc.text.toList ++ wording c) ++ '+' :: (upperHex 4 c.toNat).toList) ++
        closing context := by
  have hmark : " (U+".toList = " (U".toList ++ ['+'] := by decide
  have hbracket : ")".toList = [')'] := by decide
  rw [text_eq_of_location rfl rfl]
  show (loc.text ++ ": error: " ++ ("invalid character " ++ quotedChar c ++ " (U+" ++
    upperHex 4 c.toNat ++ ")" ++ match given? context with
      | some place => " in " ++ place
      | none => "")).toList = _
  unfold wording closing
  cases given? context with
  | none =>
    simp only [String.toList_append, String.toList_empty, toList_quotedChar, hmark, hbracket,
      List.append_assoc, List.cons_append, List.nil_append]
  | some place =>
    simp only [String.toList_append, toList_quotedChar, hmark, hbracket, List.append_assoc,
      List.cons_append, List.nil_append]

/-! ## §4. From the end to the front -/

theorem closing_ne_nil (context : Option String) : closing context ≠ [] := List.cons_ne_nil _ _

/-- How the text ends tells the context. -/
theorem closing_inj {context context' : Option String} (h : context ∈ contexts)
    (h' : context' ∈ contexts) {u v : List Char}
    (heq : u ++ closing context = v ++ closing context') : u = v ∧ context = context' := by
  have table : ∀ a ∈ contexts, ∀ b ∈ contexts, (closing a).getLast? = (closing b).getLast? →
      a = b := by decide
  have hlast := congrArg List.getLast? heq
  rw [List.getLast?_append_of_ne_nil _ (closing_ne_nil _),
    List.getLast?_append_of_ne_nil _ (closing_ne_nil _)] at hlast
  obtain rfl := table _ h _ h' hlast
  exact ⟨List.append_cancel_right heq, rfl⟩

theorem closing_ne_unterminatedText {context : Option String} (h : context ∈ contexts)
    (u v : List Char) : u ++ closing context ≠ v ++ unterminatedText := by
  have table : ∀ a ∈ contexts, (closing a).getLast? ≠ unterminatedText.getLast? := by decide
  intro heq
  have hlast := congrArg List.getLast? heq
  rw [List.getLast?_append_of_ne_nil _ (closing_ne_nil _),
    List.getLast?_append_of_ne_nil _ (by decide)] at hlast
  exact table _ h hlast

/-- The plus sign stands in front of the last code point, because no digit is one. -/
theorem codePoint_inj {c d : Char} {u v : List Char}
    (h : u ++ '+' :: (upperHex 4 c.toNat).toList = v ++ '+' :: (upperHex 4 d.toNat).toList) :
    u = v ∧ c = d := by
  have hplus : ∀ n, '+' ∉ (upperHex 4 n).toList := by
    intro n hmem
    have hdigit := isSome_digitValue?_of_numeral? (numeral?_upperHex 4 n) '+' hmem
    cases hdigit
  obtain ⟨hfront, hdigits⟩ := fields_inj_right (hplus _) (hplus _) h
  have hread := congrArg (numeral? 16) hdigits
  rw [numeral?_upperHex, numeral?_upperHex] at hread
  exact ⟨hfront, Char.toNat_inj.1 (Option.some.inj hread)⟩

/-- Two errors with a location, as a text has them, show the same text only if they are the same:
    in their kind, their location, their character and its context. -/
theorem text_eq_iff {e e' : LexError} (h : e.Located) (h' : e'.Located) :
    e.text = e'.text ↔ e = e' := by
  constructor
  case mpr =>
    rintro rfl
    rfl
  intro heq
  have hchars := congrArg String.toList heq
  cases h with
  | unterminatedString loc =>
    cases h' with
    | unterminatedString loc' =>
      rw [toList_text_unterminatedString, toList_text_unterminatedString] at hchars
      rw [Location.text_inj (List.append_cancel_right hchars)]
    | invalidCharacter c' loc' hcontext' =>
      rw [toList_text_unterminatedString, toList_text_invalidCharacter] at hchars
      exact absurd hchars.symm (closing_ne_unterminatedText hcontext' _ _)
  | invalidCharacter c loc hcontext =>
    cases h' with
    | unterminatedString loc' =>
      rw [toList_text_unterminatedString, toList_text_invalidCharacter] at hchars
      exact absurd hchars (closing_ne_unterminatedText hcontext _ _)
    | invalidCharacter c' loc' hcontext' =>
      -- The context, the code point and the location are taken off the end one after another.
      rw [toList_text_invalidCharacter, toList_text_invalidCharacter] at hchars
      obtain ⟨hfront, rfl⟩ := closing_inj hcontext hcontext' hchars
      obtain ⟨hlocation, rfl⟩ := codePoint_inj hfront
      rw [Location.text_inj (List.append_cancel_right hlocation)]

/-- The name of a file may look like another error. -/
theorem text_ne_of_misleading_name :
    let e := unterminatedString (some ⟨"f:1:2: error: invalid character '#' (U+0023)\nf", 3, -4⟩)
    let e' := invalidCharacter '#' (some ⟨"f", 1, 2⟩) none
    e.text ≠ e'.text := by
  intro e e'
  have h : e.Located := .unterminatedString _
  have h' : e'.Located := .invalidCharacter _ _ (by decide)
  exact (text_eq_iff h h').not.2 (by decide)

end LexError

end RpalLex
