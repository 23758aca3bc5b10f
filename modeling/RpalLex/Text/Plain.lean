/-! # Plain text

  A terminal takes an escape character and a left bracket for the beginning
  of a *control sequence*, which moves the cursor or changes a colour and
  shows nothing by itself.  After the bracket come parameters (`0` to `?`),
  then intermediates (the space to `/`), then one final character (`@` to
  `~`).  Plain text is text without control sequences.

  They are taken out in one pass from left to right.  What begins like a
  control sequence and does not get to a final character stays, and so does
  a sequence that comes about only when another one is taken out.

  Main statement: `plainChars_eq_self` (a text without an escape character
  is plain). -/

namespace RpalLex.Text

/-! ## §1. Control sequences -/

/-- The character that control sequences begin with. -/
def escape : Char := '\x1b'

def isParameter (c : Char) : Bool := '0' ≤ c && c ≤ '?'

def isIntermediate (c : Char) : Bool := ' ' ≤ c && c ≤ '/'

def isFinal (c : Char) : Bool := '@' ≤ c && c ≤ '~'

/-- What follows a control sequence, if there is one.  The text begins behind the escape
    character. -/
def afterControl? : List Char → Option (List Char)
  | '[' :: cs =>
    match (cs.dropWhile isParameter).dropWhile isIntermediate with
    | c :: rest => if isFinal c then some rest else none
    | [] => none
  | _ => none

theorem length_lt_of_afterControl? {cs rest : List Char} (h : afterControl? cs = some rest) :
    rest.length < cs.length := by
  unfold afterControl? at h
  split at h
  · next cs =>
    split at h
    · next c r hr =>
      split at h
      · obtain rfl := Option.some.inj h
        have h₁ := (List.dropWhile_sublist (l := cs.dropWhile isParameter) isIntermediate).length_le
        have h₂ := (List.dropWhile_sublist (l := cs) isParameter).length_le
        rw [hr] at h₁
        simp only [List.length_cons] at h₁ ⊢
        omega
      · simp at h
    · simp at h
  · simp at h

/-! ## §2. Taking them out -/

/-- A text without its control sequences, as a list of characters. -/
def plainChars : List Char → List Char
  | [] => []
  | c :: cs =>
    if c = escape then
      match _h : afterControl? cs with
      | some rest => plainChars rest
      | none => c :: plainChars cs
    else c :: plainChars cs
termination_by cs => cs.length
decreasing_by
  · exact Nat.lt_succ_of_lt (length_lt_of_afterControl? _h)
  · exact Nat.lt_succ_self _
  · exact Nat.lt_succ_self _

/-- A text without its control sequences. -/
def plain (s : String) : String := String.ofList (plainChars s.toList)

@[simp] theorem toList_plain (s : String) : (plain s).toList = plainChars s.toList := by
  simp [plain]

@[simp] theorem plainChars_nil : plainChars [] = [] := by rw [plainChars]

theorem plainChars_cons_of_ne {c : Char} (h : c ≠ escape) (cs : List Char) :
    plainChars (c :: cs) = c :: plainChars cs := by
  rw [plainChars, if_neg h]

theorem plainChars_escape_of_some {cs rest : List Char} (h : afterControl? cs = some rest) :
    plainChars (escape :: cs) = plainChars rest := by
  rw [plainChars, if_pos rfl]
  split
  · next hr => rw [h] at hr; rw [Option.some.inj hr]
  · next hr => rw [h] at hr; cases hr

theorem plainChars_escape_of_none {cs : List Char} (h : afterControl? cs = none) :
    plainChars (escape :: cs) = escape :: plainChars cs := by
  rw [plainChars, if_pos rfl]
  split
  · next hr => rw [h] at hr; cases hr
  · rfl

/-- What stands in front of the first escape character is kept. -/
theorem plainChars_append {s : List Char} (h : escape ∉ s) (t : List Char) :
    plainChars (s ++ t) = s ++ plainChars t := by
  induction s with
  | nil => rfl
  | cons c s ih =>
    simp only [List.mem_cons, not_or] at h
    rw [List.cons_append, plainChars_cons_of_ne (Ne.symm h.1), ih h.2, List.cons_append]

/-- A text without an escape character is plain. -/
theorem plainChars_eq_self {s : List Char} (h : escape ∉ s) : plainChars s = s := by
  simpa using plainChars_append h []

end RpalLex.Text
