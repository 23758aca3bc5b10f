import Mathlib.Algebra.Group.Nat.Defs
import Mathlib.Data.List.Basic
import RpalLex.Text.Numeral

/-! # Reading numerals back

  A numeral is read digit by digit, from the left: what was read so far
  counts once more for every digit behind it.  Reading in the base in which a
  number was written gives the number back, whatever the case of the letters
  and however many zeros stand in front.  So a numeral stands for one number.

  A text made of fields is taken apart at the characters between them, from
  either end, because no numeral contains one of these.

  Main statements: `numeral?_map_toDigits`, `decimalDigits_inj` and
  `readHex_hexDigits`. -/

namespace RpalLex.Text

variable {α : Type}

/-! ## §1. Fields -/

/-- The first field of a text goes up to the first `mark`. -/
theorem fields_inj {mark : α} {u v s t : List α} (hu : mark ∉ u) (hv : mark ∉ v)
    (h : u ++ mark :: s = v ++ mark :: t) : u = v ∧ s = t := by
  induction u generalizing v with
  | nil =>
    cases v with
    | nil => exact ⟨rfl, (List.cons.inj h).2⟩
    | cons c v =>
      obtain ⟨rfl, -⟩ := List.cons.inj h
      exact absurd List.mem_cons_self hv
  | cons c u ih =>
    cases v with
    | nil =>
      obtain ⟨rfl, -⟩ := List.cons.inj h
      exact absurd List.mem_cons_self hu
    | cons d v =>
      obtain ⟨rfl, htail⟩ := List.cons.inj h
      obtain ⟨rfl, rfl⟩ := ih (fun hmem => hu (List.mem_cons_of_mem _ hmem))
        (fun hmem => hv (List.mem_cons_of_mem _ hmem)) htail
      exact ⟨rfl, rfl⟩

/-- The last field of a text begins behind the last `mark`. -/
theorem fields_inj_right {mark : α} {u v s t : List α} (hs : mark ∉ s) (ht : mark ∉ t)
    (h : u ++ mark :: s = v ++ mark :: t) : u = v ∧ s = t := by
  have hreverse : s.reverse ++ mark :: u.reverse = t.reverse ++ mark :: v.reverse := by
    simpa using congrArg List.reverse h
  obtain ⟨hst, huv⟩ := fields_inj (by simpa using hs) (by simpa using ht) hreverse
  exact ⟨List.reverse_injective huv, List.reverse_injective hst⟩

/-- A field that is filled up with spaces goes up to the first of them. -/
theorem padded_fields_inj {width : Nat} {u v s t : List Char} (hu : ' ' ∉ u) (hv : ' ' ∉ v)
    (h : List.rightpad width ' ' u ++ ' ' :: s = List.rightpad width ' ' v ++ ' ' :: t) :
    u = v ∧ s = t := by
  -- The space behind the field may as well stand in front of those that fill it up.
  have hfield : ∀ w x : List Char, List.rightpad width ' ' w ++ ' ' :: x =
      w ++ ' ' :: (List.replicate (width - w.length) ' ' ++ x) := by
    intro w x
    rw [List.rightpad, List.append_assoc, ← List.cons_append, ← List.replicate_succ,
      List.replicate_succ', List.append_assoc]
    rfl
  rw [hfield, hfield] at h
  obtain ⟨rfl, hrest⟩ := fields_inj hu hv h
  exact ⟨rfl, List.append_cancel_left hrest⟩

/-! ## §2. Numerals in any base -/

/-- What a digit counts.  The letters are digits too, in either case. -/
def digitValue? (c : Char) : Option Nat :=
  if '0' ≤ c ∧ c ≤ '9' then some (c.toNat - '0'.toNat)
  else if 'a' ≤ c ∧ c ≤ 'f' then some (c.toNat - 'a'.toNat + 10)
  else if 'A' ≤ c ∧ c ≤ 'F' then some (c.toNat - 'A'.toNat + 10)
  else none

/-- The number `n`, with one more digit behind it. -/
def nextDigit? (base n : Nat) (c : Char) : Option Nat :=
  match digitValue? c with
  | some d => if d < base then some (base * n + d) else none
  | none => none

/-- The number that a row of digits stands for. -/
def numeral? (base : Nat) (cs : List Char) : Option Nat := cs.foldlM (nextDigit? base) 0

theorem nextDigit?_of_digitValue? {base d : Nat} {c : Char} (hc : digitValue? c = some d)
    (hd : d < base) (n : Nat) : nextDigit? base n c = some (base * n + d) := by
  simp only [nextDigit?, hc, if_pos hd]

theorem digitValue?_digitChar {d : Nat} (h : d < 16) : digitValue? d.digitChar = some d := by
  have table : ∀ d : Fin 16, digitValue? (Nat.digitChar d) = some d := by decide
  exact table ⟨d, h⟩

theorem digitValue?_toUpper_digitChar {d : Nat} (h : d < 16) :
    digitValue? d.digitChar.toUpper = some d := by
  have table : ∀ d : Fin 16, digitValue? (Nat.digitChar d).toUpper = some d := by decide
  exact table ⟨d, h⟩

section

variable {base : Nat} {write : Char → Char}

/-- A number is read back in the base in which it was written, even if the digits were rewritten,
    as long as each of them counts the same. -/
theorem numeral?_map_toDigits (hbase : 1 < base) (hle : base ≤ 16)
    (hwrite : ∀ d < 16, digitValue? (write d.digitChar) = some d) (n : Nat) :
    numeral? base ((Nat.toDigits base n).map write) = some n := by
  induction n using Nat.strongRecOn with
  | ind n ih =>
    rcases Nat.lt_or_ge n base with hn | hn
    · have hdigit := nextDigit?_of_digitValue? (hwrite n (by omega)) hn 0
      rw [Nat.mul_zero, Nat.zero_add] at hdigit
      rw [Nat.toDigits_of_lt_base hn]
      simp only [numeral?, List.map_cons, List.map_nil, List.foldlM_cons, List.foldlM_nil, hdigit]
      rfl
    · -- All digits but the last are those of the quotient.
      have hlast : n % base < base := Nat.mod_lt _ (by omega)
      have hquotient := ih (n / base) (Nat.div_lt_self (by omega) hbase)
      have hdigit := nextDigit?_of_digitValue? (hwrite (n % base) (by omega)) hlast (n / base)
      rw [Nat.div_add_mod] at hdigit
      rw [Nat.toDigits_of_base_le hbase hn]
      unfold numeral? at hquotient ⊢
      rw [List.map_append, List.foldlM_append, hquotient]
      simp only [List.map_cons, List.map_nil, List.foldlM_cons, List.foldlM_nil,
        Option.bind_eq_bind, Option.bind_some, hdigit]
      rfl

theorem numeral?_toDigits (hbase : 1 < base) (hle : base ≤ 16) (n : Nat) :
    numeral? base (Nat.toDigits base n) = some n := by
  have h := @numeral?_map_toDigits base id hbase hle (fun _ => digitValue?_digitChar) n
  rwa [List.map_id] at h

/-- Zeros in front count nothing. -/
theorem numeral?_replicate_append (hbase : 0 < base) {zero : Char}
    (hzero : digitValue? zero = some 0) (k : Nat) (cs : List Char) :
    numeral? base (List.replicate k zero ++ cs) = numeral? base cs := by
  induction k with
  | zero => rfl
  | succ k ih =>
    have hdigit := nextDigit?_of_digitValue? hzero hbase 0
    rw [List.replicate_succ, List.cons_append]
    unfold numeral? at ih ⊢
    rw [List.foldlM_cons, hdigit]
    exact ih

/-- Every character of a numeral is a digit. -/
theorem isSome_digitValue?_of_numeral? {cs : List Char} {n : Nat} (h : numeral? base cs = some n) :
    ∀ c ∈ cs, (digitValue? c).isSome = true := by
  -- The digits that were read do not matter, so the induction is over all of them.
  have general : ∀ (cs : List Char) (m : Nat), cs.foldlM (nextDigit? base) m = some n →
      ∀ c ∈ cs, (digitValue? c).isSome = true := by
    intro cs
    induction cs with
    | nil => simp
    | cons d cs ih =>
      intro m hm
      rw [List.foldlM_cons] at hm
      obtain ⟨m', hd, hcs⟩ := Option.bind_eq_some_iff.1 hm
      refine List.forall_mem_cons.2 ⟨?_, ih m' hcs⟩
      unfold nextDigit? at hd
      split at hd
      · next hvalue => rw [hvalue]; rfl
      · cases hd
  exact general cs 0 h

end

/-! ## §3. Decimals -/

/-- The characters of a decimal. -/
def isDecimalChar (c : Char) : Bool := c == '-' || c.isDigit

theorem isDecimalChar_of_mem_decimalDigits {n : Int} {c : Char} (h : c ∈ decimalDigits n) :
    isDecimalChar c = true := by
  unfold isDecimalChar
  rw [Bool.or_eq_true, beq_iff_eq]
  cases n with
  | ofNat n => exact .inr (Nat.isDigit_of_mem_toDigits (by decide) (by decide) h)
  | negSucc n =>
    rcases List.mem_cons.1 h with hsign | hdigit
    · exact .inl hsign
    · exact .inr (Nat.isDigit_of_mem_toDigits (by decide) (by decide) hdigit)

theorem not_mem_decimalDigits {c : Char} (h : isDecimalChar c = false) (n : Int) :
    c ∉ decimalDigits n := by
  intro hmem
  rw [isDecimalChar_of_mem_decimalDigits hmem] at h
  cases h

/-- The integer that a decimal stands for. -/
def decimal? : List Char → Option Int
  | '-' :: cs => (numeral? 10 cs).map fun n => -(n : Int)
  | cs => (numeral? 10 cs).map fun n => (n : Int)

theorem toDigits_ne_minus_cons (n : Nat) (cs : List Char) : Nat.toDigits 10 n ≠ '-' :: cs := by
  intro h
  have hminus := Nat.isDigit_of_mem_toDigits (b := 10) (n := n) (c := '-') (by decide) (by decide)
    (by rw [h]; exact List.mem_cons_self)
  cases hminus

/-- Only zero begins with a zero. -/
theorem head?_toDigits_ne_zero {n : Nat} (hn : 0 < n) :
    (Nat.toDigits 10 n).head? ≠ some '0' := by
  induction n using Nat.strongRecOn with
  | ind n ih =>
    rcases Nat.lt_or_ge n 10 with hlt | hge
    · rw [Nat.toDigits_of_lt_base hlt]
      intro h
      have hzero := Nat.digitChar_eq_zero.1 (Option.some.inj h)
      omega
    · rw [Nat.toDigits_of_base_le (by decide) hge,
        List.head?_append_of_ne_nil _ Nat.toDigits_ne_nil]
      exact ih (n / 10) (Nat.div_lt_self hn (by decide)) (Nat.div_pos hge (by decide))

theorem decimal?_decimalDigits (n : Int) : decimal? (decimalDigits n) = some n := by
  cases n with
  | ofNat n =>
    show decimal? (Nat.toDigits 10 n) = _
    unfold decimal?
    split
    · next cs h => exact absurd h (toDigits_ne_minus_cons n cs)
    · rw [numeral?_toDigits (by decide) (by decide)]
      rfl
  | negSucc n =>
    show (numeral? 10 (Nat.toDigits 10 (n + 1))).map (fun k => -(k : Int)) = _
    rw [numeral?_toDigits (by decide) (by decide)]
    rfl

theorem decimalDigits_inj {m n : Int} : decimalDigits m = decimalDigits n ↔ m = n := by
  constructor
  · intro h
    have hread := congrArg decimal? h
    rw [decimal?_decimalDigits, decimal?_decimalDigits] at hread
    exact Option.some.inj hread
  · rintro rfl
    rfl

/-! ## §4. Hexadecimals -/

theorem numeral?_hexDigits (width n : Nat) : numeral? 16 (hexDigits width n) = some n := by
  rw [hexDigits, List.leftpad, numeral?_replicate_append (by decide) (by decide),
    numeral?_toDigits (by decide) (by decide)]

theorem numeral?_upperHex (width n : Nat) : numeral? 16 (upperHex width n).toList = some n := by
  rw [upperHex, String.toList_ofList, hexDigits, List.leftpad, List.map_append, List.map_replicate,
    numeral?_replicate_append (by decide) (by decide),
    numeral?_map_toDigits (by decide) (by decide) fun _ => digitValue?_toUpper_digitChar]

/-- A number that is not too large has as many digits as were asked for. -/
theorem length_hexDigits {width n : Nat} (hwidth : 0 < width) (hn : n < 16 ^ width) :
    (hexDigits width n).length = width := by
  have hlength := (Nat.length_toDigits_le_iff (b := 16) (by decide) hwidth).2 hn
  rw [hexDigits, List.length_leftpad, Nat.max_eq_left hlength]

/-- The number of `width` hexadecimal digits in front, and what follows. -/
def readHex (width : Nat) (cs : List Char) : Option (Nat × List Char) :=
  if width ≤ cs.length then (numeral? 16 (cs.take width)).map fun n => (n, cs.drop width) else none

theorem readHex_hexDigits {width n : Nat} (hwidth : 0 < width) (hn : n < 16 ^ width)
    (rest : List Char) : readHex width (hexDigits width n ++ rest) = some (n, rest) := by
  have hlength := length_hexDigits hwidth hn
  rw [readHex, if_pos (by rw [List.length_append]; omega), List.take_left' hlength,
    List.drop_left' hlength, numeral?_hexDigits]
  rfl

end RpalLex.Text
