import RpalLex.Charset.Utf16
import RpalLex.Command.Report
import RpalLex.Listing
import RpalLex.Proofs.Grammar
import RpalLex.Proofs.QuotedText

/-! # Reading data back

  A reader of data: values are null, truth values, integers, strings, arrays
  and objects, with blanks between them wherever a value does not forbid it.
  A string is read one character at a time; an escape of four digits is a unit
  of 16 bits, and a high unit needs a low one behind it.  An integer has no
  zeros in front.

  The reader goes down one level, or on to the next item, with a smaller
  `bound`, and the length of a text is bound enough for all that it can hold.

  * `Json.Reads` says that a text is read as a value, whatever follows it.

  Main statements: `readChar_dataChar` (one character), `Reads.string` and
  `Reads.number` (the leaves), `reads_object` (a token) and `decode_array`. -/

namespace RpalLex

open Text

/-- A value of data. -/
inductive Json where
  | null
  | bool (b : Bool)
  | number (n : Int)
  | string (s : String)
  | array (items : List Json)
  | object (members : List (String × Json))
deriving Repr

namespace Json

/-! ## §1. The reader -/

/-- The characters that may stand between values. -/
def isSpace (c : Char) : Bool := c == ' ' || c == '\t' || c == '\n' || c == '\r'

/-- The character of a unit, which takes a second one if it is the high half of a pair. -/
def ofUnit (u : Nat) (cs : List Char) : Option (Char × List Char) :=
  if Charset.Utf16.isHigh u then
    match cs with
    | '\\' :: 'u' :: cs =>
      match readHex 4 cs with
      | some (v, rest) =>
        if Charset.Utf16.isLow v then some (Charset.Utf16.pair u v, rest) else none
      | none => none
    | _ => none
  else if Charset.Utf16.isLow u then none
  else some (Char.ofNat u, cs)

/-- The character of an escape, and what follows.  The backslash has been read. -/
def readEscape : List Char → Option (Char × List Char)
  | '"' :: cs => some ('"', cs)
  | '\\' :: cs => some ('\\', cs)
  | '/' :: cs => some ('/', cs)
  | 'b' :: cs => some ('\x08', cs)
  | 'f' :: cs => some ('\x0c', cs)
  | 'n' :: cs => some ('\n', cs)
  | 'r' :: cs => some ('\r', cs)
  | 't' :: cs => some ('\t', cs)
  | 'u' :: cs =>
    match readHex 4 cs with
    | some (u, rest) => ofUnit u rest
    | none => none
  | _ => none

/-- The first character of a string, and what follows.  Control characters have to be escaped. -/
def readChar : List Char → Option (Char × List Char)
  | [] => none
  | c :: cs => if c = '\\' then readEscape cs else if c.toNat < 0x20 then none else some (c, cs)

/-- The string whose opening quote has been read, and what follows. -/
def readString (cs : List Char) : Option (String × List Char) :=
  (readUpTo readChar '"' cs).map fun (s, rest) => (String.ofList s, rest)

/-- Is the numeral free of zeros in front? -/
def isNatural : List Char → Bool
  | [] => false
  | '0' :: ds => ds.isEmpty
  | _ => true

/-- Is the decimal free of zeros in front? -/
def isInteger : List Char → Bool
  | '-' :: ds => isNatural ds
  | ds => isNatural ds

/-- The integer at the front, and what follows. -/
def readInteger (cs : List Char) : Option (Int × List Char) :=
  if isInteger (cs.takeWhile isDecimalChar) then
    (decimal? (cs.takeWhile isDecimalChar)).map fun n => (n, cs.dropWhile isDecimalChar)
  else none

/-- The key of a member with the colon behind it, and what follows. -/
def readKey (cs : List Char) : Option (String × List Char) :=
  match cs.dropWhile isSpace with
  | '"' :: cs =>
    match readString cs with
    | some (key, rest) =>
      match rest.dropWhile isSpace with
      | ':' :: rest => some (key, rest)
      | _ => none
    | none => none
  | _ => none

mutual

/-- The value at the front, and what follows. -/
def value : Nat → List Char → Option (Json × List Char)
  | 0, _ => none
  | bound + 1, cs =>
    match cs.dropWhile isSpace with
    | '"' :: cs => (readString cs).map fun (s, rest) => (string s, rest)
    | '[' :: cs =>
      match cs.dropWhile isSpace with
      | ']' :: rest => some (array [], rest)
      | _ => (items bound cs).map fun (vs, rest) => (array vs, rest)
    | '\x7b' :: cs =>
      match cs.dropWhile isSpace with
      | '\x7d' :: rest => some (object [], rest)
      | _ => (members bound cs).map fun (ms, rest) => (object ms, rest)
    | 'n' :: 'u' :: 'l' :: 'l' :: rest => some (null, rest)
    | 't' :: 'r' :: 'u' :: 'e' :: rest => some (bool true, rest)
    | 'f' :: 'a' :: 'l' :: 's' :: 'e' :: rest => some (bool false, rest)
    | cs => (readInteger cs).map fun (n, rest) => (number n, rest)

/-- The items of an array up to its closing bracket, and what follows. -/
def items : Nat → List Char → Option (List Json × List Char)
  | 0, _ => none
  | bound + 1, cs =>
    match value bound cs with
    | some (v, rest) =>
      match rest.dropWhile isSpace with
      | ',' :: rest => (items bound rest).map fun (vs, after) => (v :: vs, after)
      | ']' :: rest => some ([v], rest)
      | _ => none
    | none => none

/-- The members of an object up to its closing brace, and what follows. -/
def members : Nat → List Char → Option (List (String × Json) × List Char)
  | 0, _ => none
  | bound + 1, cs =>
    match readKey cs with
    | some (key, rest) =>
      match value bound rest with
      | some (v, rest) =>
        match rest.dropWhile isSpace with
        | ',' :: rest => (members bound rest).map fun (ms, after) => ((key, v) :: ms, after)
        | '\x7d' :: rest => some ([(key, v)], rest)
        | _ => none
      | none => none
    | none => none

end

/-- The value that a text is. -/
def decode (s : String) : Option Json :=
  match value (s.length + 1) s.toList with
  | some (v, rest) => if rest.all isSpace then some v else none
  | none => none

/-! ## §2. Strings -/

theorem readChar_unit {u : Nat} (hu : u < 16 ^ 4) (rest : List Char) :
    readChar ('\\' :: 'u' :: (hexDigits 4 u ++ rest)) = ofUnit u rest := by
  show (match readHex 4 (hexDigits 4 u ++ rest) with
    | some (u, rest) => ofUnit u rest
    | none => none) = _
  rw [readHex_hexDigits (by decide) hu]

theorem ofUnit_toNat {c : Char} (hc : c.toNat < 0x10000) (rest : List Char) :
    ofUnit c.toNat rest = some (c, rest) := by
  -- No character is one half of a pair.
  have hcases := toNat_cases c
  have hhigh : Charset.Utf16.isHigh c.toNat = false := by
    simp only [Charset.Utf16.isHigh, Bool.and_eq_false_iff, decide_eq_false_iff_not]
    omega
  have hlow : Charset.Utf16.isLow c.toNat = false := by
    simp only [Charset.Utf16.isLow, Bool.and_eq_false_iff, decide_eq_false_iff_not]
    omega
  unfold ofUnit
  rw [if_neg (by rw [hhigh]; exact Bool.false_ne_true),
    if_neg (by rw [hlow]; exact Bool.false_ne_true), Char.ofNat_toNat]

/-- A character beyond the range of one unit is read back from its two halves. -/
theorem ofUnit_pair {c : Char} (hc : 0x10000 ≤ c.toNat) (rest : List Char) :
    ofUnit (0xd800 + (c.toNat - 0x10000) / 0x400)
      ('\\' :: 'u' :: (hexDigits 4 (0xdc00 + (c.toNat - 0x10000) % 0x400) ++ rest)) =
        some (c, rest) := by
  have hcases := toNat_cases c
  have hquotient : (c.toNat - 0x10000) / 0x400 < 0x400 := by omega
  have hremainder : (c.toNat - 0x10000) % 0x400 < 0x400 := Nat.mod_lt _ (by decide)
  have hhigh : Charset.Utf16.isHigh (0xd800 + (c.toNat - 0x10000) / 0x400) = true := by
    simp only [Charset.Utf16.isHigh, Bool.and_eq_true, decide_eq_true_eq]
    omega
  have hlow : Charset.Utf16.isLow (0xdc00 + (c.toNat - 0x10000) % 0x400) = true := by
    simp only [Charset.Utf16.isLow, Bool.and_eq_true, decide_eq_true_eq]
    omega
  have hpair : Charset.Utf16.pair (0xd800 + (c.toNat - 0x10000) / 0x400)
      (0xdc00 + (c.toNat - 0x10000) % 0x400) = c := by
    unfold Charset.Utf16.pair
    have hsum : 0x10000 + (0xd800 + (c.toNat - 0x10000) / 0x400 - 0xd800) * 0x400 +
        (0xdc00 + (c.toNat - 0x10000) % 0x400 - 0xdc00) = c.toNat := by omega
    rw [hsum, Char.ofNat_toNat]
  have hread : readHex 4 (hexDigits 4 (0xdc00 + (c.toNat - 0x10000) % 0x400) ++ rest) =
      some (0xdc00 + (c.toNat - 0x10000) % 0x400, rest) :=
    readHex_hexDigits (by decide) (by omega) rest
  unfold ofUnit
  rw [if_pos hhigh]
  simp only [hread]
  rw [if_pos hlow, hpair]

theorem readChar_units16 (c : Char) (rest : List Char) :
    readChar ((Listing.units16 c).flatMap (fun u => '\\' :: 'u' :: hexDigits 4 u) ++ rest) =
      some (c, rest) := by
  have hpair : ∀ u v : Nat, [u, v].flatMap (fun u => '\\' :: 'u' :: hexDigits 4 u) ++ rest =
      '\\' :: 'u' :: (hexDigits 4 u ++ ('\\' :: 'u' :: (hexDigits 4 v ++ rest))) := by
    intro u v
    simp only [List.flatMap_cons, List.flatMap_nil, List.append_nil, List.append_assoc,
      List.cons_append]
  by_cases hshort : c.toNat < 0x10000
  · have hunits : Listing.units16 c = [c.toNat] := if_pos hshort
    rw [hunits, List.flatMap_singleton, List.cons_append, List.cons_append, readChar_unit hshort,
      ofUnit_toNat hshort]
  · have hcases := toNat_cases c
    have hunits : Listing.units16 c =
        [0xd800 + (c.toNat - 0x10000) / 0x400, 0xdc00 + (c.toNat - 0x10000) % 0x400] :=
      if_neg hshort
    rw [hunits, hpair, readChar_unit (by omega), ofUnit_pair (Nat.not_lt.1 hshort)]

/-- Every character of a string is read back, whatever follows. -/
theorem readChar_dataChar (c : Char) (rest : List Char) :
    readChar (Listing.dataChar c ++ rest) = some (c, rest) := by
  unfold Listing.dataChar
  by_cases hquote : c = '"'
  · subst hquote
    rfl
  by_cases hbackslash : c = '\\'
  · subst hbackslash
    rfl
  by_cases hfeed : c = '\n'
  · subst hfeed
    rfl
  by_cases hreturn : c = '\r'
  · subst hreturn
    rfl
  by_cases htab : c = '\t'
  · subst htab
    rfl
  by_cases hpage : c = '\x0c'
  · subst hpage
    rfl
  by_cases hback : c = '\x08'
  · subst hback
    rfl
  rw [if_neg hquote, if_neg hbackslash, if_neg hfeed, if_neg hreturn, if_neg htab, if_neg hpage,
    if_neg hback]
  by_cases hascii : 0x20 ≤ c.toNat ∧ c.toNat ≤ 0x7e
  · rw [if_pos hascii]
    show (if c = '\\' then readEscape rest else
      if c.toNat < 0x20 then none else some (c, rest)) = _
    rw [if_neg hbackslash, if_neg (Nat.not_lt.2 hascii.1)]
  · rw [if_neg hascii]
    exact readChar_units16 c rest

/-- The quote never stands where a character begins: it would be read as itself. -/
theorem head?_dataChar_append (c : Char) (rest : List Char) :
    (Listing.dataChar c ++ rest).head? ≠ some '"' := by
  intro h
  obtain ⟨more, hmore⟩ := List.head?_eq_some_iff.1 h
  have hread := readChar_dataChar c rest
  rw [hmore] at hread
  obtain ⟨rfl, rfl⟩ := Prod.mk.inj (Option.some.inj hread)
  cases hmore

theorem toList_dataString (s : String) :
    (Listing.dataString s).toList = '"' :: (s.toList.flatMap Listing.dataChar ++ ['"']) := by
  rw [Listing.dataString, String.toList_ofList, List.cons_append]

theorem readString_flatMap (s : String) (rest : List Char) :
    readString (s.toList.flatMap Listing.dataChar ++ '"' :: rest) = some (s, rest) := by
  rw [readString, readUpTo_flatMap readChar_dataChar head?_dataChar_append, Option.map_some]
  show some (String.ofList s.toList, rest) = some (s, rest)
  rw [String.ofList_toList]

/-! ## §3. Integers -/

theorem isNatural_toDigits (n : Nat) : isNatural (Nat.toDigits 10 n) = true := by
  rcases Nat.eq_zero_or_pos n with rfl | hn
  · decide
  · unfold isNatural
    split
    · next h => exact absurd h Nat.toDigits_ne_nil
    · next h =>
      have hzero := head?_toDigits_ne_zero hn
      rw [h] at hzero
      exact absurd rfl hzero
    · rfl

theorem isInteger_decimalDigits (n : Int) : isInteger (decimalDigits n) = true := by
  cases n with
  | ofNat n =>
    show isInteger (Nat.toDigits 10 n) = true
    unfold isInteger
    split
    · next ds h => exact absurd h (toDigits_ne_minus_cons n ds)
    · exact isNatural_toDigits n
  | negSucc n => exact isNatural_toDigits (n + 1)

theorem takeWhile_append_of_stops {accept : Char → Bool} {u rest : List Char}
    (hu : ∀ c ∈ u, accept c = true) (hrest : Stops accept rest) :
    (u ++ rest).takeWhile accept = u ∧ (u ++ rest).dropWhile accept = rest := by
  rw [List.takeWhile_append_of_pos hu, List.dropWhile_append_of_pos hu]
  cases rest with
  | nil => exact ⟨List.append_nil u, rfl⟩
  | cons c rest =>
    have hc : accept c = false := hrest c rfl
    rw [List.takeWhile_cons_of_neg (by rw [hc]; exact Bool.false_ne_true),
      List.dropWhile_cons_of_neg (by rw [hc]; exact Bool.false_ne_true)]
    exact ⟨List.append_nil u, rfl⟩

/-- An integer is read up to the first character that belongs to none. -/
theorem readInteger_decimalDigits (n : Int) {rest : List Char} (hrest : Stops isDecimalChar rest) :
    readInteger (decimalDigits n ++ rest) = some (n, rest) := by
  obtain ⟨htake, hdrop⟩ :=
    takeWhile_append_of_stops (fun c => isDecimalChar_of_mem_decimalDigits) hrest
  rw [readInteger, htake, hdrop, if_pos (isInteger_decimalDigits n), decimal?_decimalDigits]
  rfl

/-! ## §4. Values -/

/-- The text is read as the value within the bound, whatever follows it. -/
def Reads (bound : Nat) (text : List Char) (v : Json) : Prop :=
  ∀ b, bound ≤ b → ∀ rest, Stops isDecimalChar rest → value b (text ++ rest) = some (v, rest)

theorem Reads.string (s : String) : Reads 1 (Listing.dataString s).toList (.string s) := by
  intro b hb rest _
  obtain ⟨b, rfl⟩ := Nat.exists_eq_add_one_of_ne_zero (Nat.ne_zero_of_lt hb)
  rw [toList_dataString, List.cons_append, List.append_assoc]
  show (readString (s.toList.flatMap Listing.dataChar ++ '"' :: rest)).map _ = _
  rw [readString_flatMap]
  rfl

theorem isSpace_of_isDecimalChar {c : Char} (hc : isDecimalChar c = true) : isSpace c = false := by
  refine Bool.eq_false_iff.2 fun hspace => ?_
  simp only [isSpace, Bool.or_eq_true, beq_iff_eq] at hspace
  rcases hspace with ((rfl | rfl) | rfl) | rfl
  all_goals cases hc

theorem Reads.number (n : Int) : Reads 1 (decimalDigits n) (.number n) := by
  intro b hb rest hrest
  obtain ⟨b, rfl⟩ := Nat.exists_eq_add_one_of_ne_zero (Nat.ne_zero_of_lt hb)
  have hread := readInteger_decimalDigits n hrest
  have hne : decimalDigits n ≠ [] := by
    cases n with
    | ofNat n => exact Nat.toDigits_ne_nil
    | negSucc n => exact List.cons_ne_nil _ _
  obtain ⟨c, ds, hds⟩ := List.exists_cons_of_ne_nil hne
  have hc : isDecimalChar c = true :=
    isDecimalChar_of_mem_decimalDigits (by rw [hds]; exact List.mem_cons_self)
  rw [hds, List.cons_append] at hread ⊢
  have hspace : ¬ isSpace c = true := by
    rw [isSpace_of_isDecimalChar hc]
    exact Bool.false_ne_true
  rw [value, List.dropWhile_cons_of_neg hspace]
  -- Neither a sign nor a digit begins anything else.
  split
  case h_7 => rw [hread]; rfl
  all_goals
    next h =>
      obtain ⟨rfl, -⟩ := List.cons.inj h
      cases hc

/-! ## §5. Values in values -/

section

variable {u : List Char} (hu : u.all isSpace = true) {c : Char} (rest : List Char)

include hu

/-- Blanks in front of something else are passed over. -/
theorem dropWhile_gap (hc : isSpace c = false) :
    (u ++ c :: rest).dropWhile isSpace = c :: rest := by
  have hstops : Stops isSpace (c :: rest) := by
    intro d hd
    obtain rfl := Option.some.inj hd
    exact hc
  exact (takeWhile_append_of_stops (List.all_eq_true.1 hu) hstops).2

theorem stops_gap (hc : isDecimalChar c = false) : Stops isDecimalChar (u ++ c :: rest) := by
  intro d hd
  cases u with
  | nil =>
    obtain rfl := Option.some.inj hd
    exact hc
  | cons e u =>
    obtain rfl := Option.some.inj hd
    refine Bool.eq_false_iff.2 fun hdecimal => ?_
    have hspace := List.all_eq_true.1 hu e List.mem_cons_self
    rw [isSpace_of_isDecimalChar hdecimal] at hspace
    cases hspace

/-- Blanks in front of a value mean nothing. -/
theorem Reads.gap {bound : Nat} {text : List Char} {v : Json} (h : Reads bound text v) :
    Reads bound (u ++ text) v := by
  intro b hb rest hrest
  rw [← h b hb rest hrest, List.append_assoc]
  cases b with
  | zero => rfl
  | succ b => rw [value, value, List.dropWhile_append_of_pos (List.all_eq_true.1 hu)]

end

/-- How far the members of a token's object are set in, each on a line of its own. -/
def indent : List Char := ['\n', ' ', ' ', ' ', ' ']

/-- A member: its key and its value, on a line of its own. -/
def field (key : String) (text : List Char) : List Char :=
  indent ++ ((Listing.dataString key).toList ++ ':' :: ' ' :: text)

theorem field_append (key : String) (text rest : List Char) :
    field key text ++ rest = field key (text ++ rest) := by
  rw [field, field, List.append_assoc, List.append_assoc, List.cons_append, List.cons_append]

theorem dropWhile_field (key : String) (text : List Char) :
    (field key text).dropWhile isSpace =
      '"' :: (key.toList.flatMap Listing.dataChar ++ '"' :: ':' :: ' ' :: text) := by
  rw [field, toList_dataString, List.cons_append, List.append_assoc,
    dropWhile_gap (by decide) _ (by decide)]
  rfl

theorem readKey_field (key : String) (text : List Char) :
    readKey (field key text) = some (key, ' ' :: text) := by
  rw [readKey, dropWhile_field]
  simp only [readString_flatMap]
  rfl

section

variable {bound b : Nat} {text u : List Char} {v : Json} (h : Reads bound text v)
  (hb : bound ≤ b) (hu : u.all isSpace = true) (rest : List Char)

include h hb

/-- A comma ends an item, and the next one follows. -/
theorem items_cons : items (b + 1) (text ++ ',' :: rest) =
    (items b rest).map fun (vs, after) => (v :: vs, after) := by
  have hvalue : value b (text ++ ',' :: rest) = some (v, ',' :: rest) :=
    h b hb _ (stops_gap (u := []) rfl rest (by decide))
  rw [items, hvalue]
  rfl

theorem members_cons (key : String) : members (b + 1) (field key text ++ ',' :: rest) =
    (members b rest).map fun (ms, after) => ((key, v) :: ms, after) := by
  have hvalue : value b (' ' :: (text ++ ',' :: rest)) = some (v, ',' :: rest) :=
    h.gap (u := [' ']) rfl b hb _ (stops_gap (u := []) rfl rest (by decide))
  rw [field_append, members, readKey_field]
  simp only [hvalue]
  rfl

include hu

/-- The bracket ends the items. -/
theorem items_last : items (b + 1) (text ++ (u ++ ']' :: rest)) = some ([v], rest) := by
  rw [items, h b hb _ (stops_gap hu rest (by decide))]
  simp only [dropWhile_gap hu rest (show isSpace ']' = false by decide)]

/-- The brace ends the members. -/
theorem members_last (key : String) :
    members (b + 1) (field key text ++ (u ++ '\x7d' :: rest)) = some ([(key, v)], rest) := by
  have hvalue : value b (' ' :: (text ++ (u ++ '\x7d' :: rest))) =
      some (v, u ++ '\x7d' :: rest) :=
    h.gap (u := [' ']) rfl b hb _ (stops_gap hu rest (by decide))
  rw [field_append, members, readKey_field]
  simp only [hvalue, dropWhile_gap hu rest (show isSpace '\x7d' = false by decide)]

end

/-- An object that is not empty has its members. -/
theorem value_object {b : Nat} {u rest text : List Char} {key : String}
    {ms : List (String × Json)} (hu : u.all isSpace = true)
    (hmembers : members b (field key text) = some (ms, rest)) :
    value (b + 1) (u ++ '\x7b' :: field key text) = some (.object ms, rest) := by
  rw [value, dropWhile_gap hu _ (by decide)]
  simp only [dropWhile_field, hmembers]
  rfl

/-- An array that does not end where it begins has its items. -/
theorem value_array {b : Nat} {rest cs : List Char} {c : Char} {more : List Char} {vs : List Json}
    (hcs : cs.dropWhile isSpace = c :: more) (hc : c ≠ ']')
    (hitems : items b cs = some (vs, rest)) :
    value (b + 1) ('[' :: cs) = some (.array vs, rest) := by
  rw [value]
  show (match cs.dropWhile isSpace with
    | ']' :: rest => some (array [], rest)
    | _ => (items b cs).map fun (vs, rest) => (array vs, rest)) = _
  rw [hcs]
  split
  · next h => exact absurd (List.cons.inj h).1 hc
  · rw [hitems]
    rfl

/-! ## §6. Tokens as data -/

/-- A token as a value. -/
def ofToken (t : Token) : Json :=
  .object [("kind", .string t.kind.name), ("value", .string t.value),
    ("line", .number t.start.line), ("column", .number t.start.column)]

theorem toList_object (t : Token) :
    (Listing.object t).toList = "  ".toList ++ '\x7b' ::
      (field "kind" (Listing.dataString t.kind.name).toList ++ ',' ::
      (field "value" (Listing.dataString t.value).toList ++ ',' ::
      (field "line" (decimalDigits t.start.line) ++ ',' ::
      (field "column" (decimalDigits t.start.column) ++ ("\n  ".toList ++ ['\x7d']))))) := by
  have hfield : ∀ (key : String) (text : List Char), field key text =
      indent ++ ((Listing.dataString key).toList ++ (": ".toList ++ text)) :=
    fun _ _ => rfl
  have hkind : "    \"kind\": ".toList =
      "    ".toList ++ ((Listing.dataString "kind").toList ++ ": ".toList) := by decide
  have hvalue : "    \"value\": ".toList =
      "    ".toList ++ ((Listing.dataString "value").toList ++ ": ".toList) := by decide
  have hline : "    \"line\": ".toList =
      "    ".toList ++ ((Listing.dataString "line").toList ++ ": ".toList) := by decide
  have hcolumn : "    \"column\": ".toList =
      "    ".toList ++ ((Listing.dataString "column").toList ++ ": ".toList) := by decide
  unfold Listing.object
  simp only [String.toList_append, toList_decimal, List.append_assoc, hfield, hkind, hvalue, hline,
    hcolumn]
  rfl

/-- A token's object is read as the token's value. -/
theorem reads_object (t : Token) : Reads 6 (Listing.object t).toList (ofToken t) := by
  intro b hb rest _
  obtain ⟨b, rfl⟩ := Nat.exists_eq_add_of_le' hb
  have hkind := Reads.string t.kind.name
  have hvalue := Reads.string t.value
  have hline := Reads.number t.start.line
  have hcolumn := Reads.number t.start.column
  rw [toList_object]
  simp only [List.append_assoc, List.cons_append, List.nil_append]
  rw [field_append]
  apply value_object (by decide)
  rw [← field_append, members_cons hkind (by omega), members_cons hvalue (by omega),
    members_cons hline (by omega), members_last hcolumn (by omega) (by decide)]
  rfl

/-- The objects of tokens, with a comma and a line feed between them. -/
def objects (ts : List Token) : List Char :=
  ",\n".toList.intercalate (ts.map fun t => (Listing.object t).toList)

theorem objects_singleton (t : Token) : objects [t] = (Listing.object t).toList :=
  List.intercalate_singleton

theorem objects_cons_cons (t u : Token) (ts : List Token) :
    objects (t :: u :: ts) = (Listing.object t).toList ++ ',' :: '\n' :: objects (u :: ts) := by
  show ",\n".toList.intercalate ((Listing.object t).toList :: (Listing.object u).toList :: _) = _
  rw [List.intercalate_cons_cons, List.append_assoc]
  rfl

theorem toList_array_cons (t : Token) (ts : List Token) :
    (Listing.array (t :: ts)).toList = '[' :: '\n' :: (objects (t :: ts) ++ ['\n', ']']) := by
  unfold Listing.array objects
  rw [if_neg (by simp), String.toList_append, String.toList_append, String.toList_intercalate,
    List.map_map]
  rfl

/-- The objects of tokens are read one after another, each with a line feed in front. -/
theorem items_objects (t : Token) (ts : List Token) {b : Nat} (hb : ts.length + 7 ≤ b)
    (rest : List Char) :
    items b ('\n' :: (objects (t :: ts) ++ '\n' :: ']' :: rest)) =
      some ((t :: ts).map ofToken, rest) := by
  induction ts generalizing t b with
  | nil =>
    obtain ⟨b, rfl⟩ := Nat.exists_eq_add_one_of_ne_zero (Nat.ne_zero_of_lt hb)
    have hlast := items_last (b := b) ((reads_object t).gap (u := ['\n']) rfl)
      (by simpa using hb) (u := ['\n']) rfl rest
    rw [List.append_assoc, List.singleton_append, List.singleton_append] at hlast
    rw [objects_singleton, hlast]
    rfl
  | cons u ts ih =>
    obtain ⟨b, rfl⟩ := Nat.exists_eq_add_one_of_ne_zero (Nat.ne_zero_of_lt hb)
    rw [List.length_cons] at hb
    have hfirst := items_cons (b := b) ((reads_object t).gap (u := ['\n']) rfl) (by omega)
      ('\n' :: (objects (u :: ts) ++ '\n' :: ']' :: rest))
    rw [ih u (by omega), List.append_assoc, List.singleton_append] at hfirst
    rw [objects_cons_cons, List.append_assoc, List.cons_append, List.cons_append, hfirst]
    rfl

theorem exists_objects_eq (t : Token) (ts : List Token) :
    ∃ more, objects (t :: ts) = "  ".toList ++ '\x7b' :: more := by
  cases ts with
  | nil => exact ⟨_, (objects_singleton t).trans (toList_object t)⟩
  | cons u ts =>
    rw [objects_cons_cons, toList_object, List.append_assoc]
    exact ⟨_, rfl⟩

theorem length_objects (t : Token) (ts : List Token) :
    ts.length + 7 ≤ (objects (t :: ts)).length := by
  have hobject : ∀ t : Token, 7 ≤ (Listing.object t).toList.length := by
    intro t
    rw [toList_object, field_append, field]
    simp only [List.length_append, List.length_cons]
    have hindent : indent.length = 5 := rfl
    omega
  induction ts generalizing t with
  | nil =>
    rw [objects_singleton]
    simpa using hobject t
  | cons u ts ih =>
    have hrest := ih u
    rw [objects_cons_cons, List.length_append, List.length_cons, List.length_cons, List.length_cons]
    omega

/-- An array of tokens is the data of these tokens, in their order. -/
theorem decode_array (ts : List Token) :
    decode (Listing.array ts ++ "\n") = some (.array (ts.map ofToken)) := by
  cases ts with
  | nil => rfl
  | cons t ts =>
    obtain ⟨more, hmore⟩ := exists_objects_eq t ts
    have hlength := length_objects t ts
    have hchars : (Listing.array (t :: ts) ++ "\n").toList =
        '[' :: '\n' :: (objects (t :: ts) ++ '\n' :: ']' :: ['\n']) := by
      rw [String.toList_append, toList_array_cons, List.cons_append, List.cons_append,
        List.append_assoc]
      rfl
    have hopen : ('\n' :: (objects (t :: ts) ++ '\n' :: ']' :: ['\n'])).dropWhile isSpace =
        '\x7b' :: (more ++ '\n' :: ']' :: ['\n']) := by
      rw [hmore, List.append_assoc]
      rfl
    have hvalue := value_array hopen (by decide)
      (items_objects t ts (b := (Listing.array (t :: ts) ++ "\n").length) (by
        rw [← String.length_toList, hchars]
        simp only [List.length_cons, List.length_append]
        omega) ['\n'])
    rw [decode, hchars, hvalue]
    rfl

end Json

end RpalLex
