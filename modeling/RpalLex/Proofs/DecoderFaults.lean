import RpalLex.Charset.Decoding
import RpalLex.Proofs.QuotedText

/-! # What decoders report

  Whatever the charset is, a file gives characters, and after them nothing
  or a fault: the first block that is no text ends the reading.  The fault is
  of a kind that ends it for good, and its message is one printable line,
  because it is made of numbers and of the decoder's own words.

  Main statements: `ofDecoder_of_decodeBlock` (one block) and `reads_shape`. -/

namespace RpalLex.Charset

open Text

/-! ## §1. Messages -/

/-- The words of a report, which are the decoder's own, are printable. -/
structure Undecodable.Worded (u : Undecodable) : Prop where
  codec : Printable u.codec.toList
  reason : Printable u.reason.toList

theorem Undecodable.worded_mk {codec reason : String} (hcodec : Printable codec.toList)
    (hreason : Printable reason.toList) (b : UInt8) (position length : Nat) :
    Worded ⟨codec, b, position, length, reason⟩ :=
  ⟨hcodec, hreason⟩

theorem Undecodable.Worded.printable_text {u : Undecodable} (h : u.Worded) :
    Printable u.text.toList := by
  unfold text
  simp only [String.toList_append, printable_append]
  refine ⟨⟨⟨⟨⟨by decide, h.codec⟩, by decide⟩, ?_⟩, by decide⟩, h.reason⟩
  split
  · simp only [String.toList_append, String.toList_ofList, toList_decimal, printable_append]
    exact ⟨⟨⟨by decide, printable_hexDigits _ _⟩, by decide⟩, printable_decimalDigits _⟩
  · simp only [String.toList_append, toList_decimal, printable_append]
    exact ⟨⟨⟨by decide, printable_decimalDigits _⟩, by decide⟩, printable_decimalDigits _⟩

/-- A fault that a decoder raises. -/
structure OfDecoder (f : Fault) : Prop where
  endsReading : f.kind.endsReading = true
  printable : Printable f.message.toList

/-! ## §2. Decoders -/

section

variable {bytes : List UInt8} {chars : List Char} {u : Undecodable}

theorem SingleByte.Table.worded_of_run {t : Table} {position : Nat}
    (hcodec : Printable t.codec.toList) (hreason : Printable t.reason.toList)
    (h : t.run position chars bytes = .error u) : u.Worded := by
  induction bytes generalizing position chars with
  | nil => cases h
  | cons b bytes ih =>
    rw [run] at h
    split at h
    · exact ih h
    · cases h
      exact ⟨hcodec, hreason⟩

theorem Utf8.worded_of_run {isLast : Bool} {position : Nat} {state : Option Sequence}
    (h : run isLast position state chars bytes = .error u) : u.Worded := by
  induction bytes generalizing position state chars with
  | nil => cases h
  | cons b bytes ih =>
    rw [run] at h
    split at h
    · exact ih h
    · exact ih h
    · split at h
      · cases h
      · cases h
        unfold refusal
        split
        · exact Undecodable.worded_mk (by decide) (by decide) _ _ _
        · exact Undecodable.worded_mk (by decide) (by decide) _ _ _

theorem Utf8.worded_of_decode {isLast : Bool} (h : decode isLast bytes = .error u) : u.Worded := by
  unfold decode at h
  split at h
  · split at h
    · cases h
      exact Undecodable.worded_mk (by decide) (by decide) _ _ _
    · cases h
  · exact worded_of_run h

theorem Utf16.worded_of_run {order : ByteOrder} {isLast : Bool} {position : Nat}
    (h : run order isLast position chars bytes = .error u) : u.Worded := by
  have hcodec : Printable order.codec.toList := by
    cases order with
    | _ => decide
  fun_induction run order isLast position chars bytes with
  | case1 | case3 | case8 => cases h
  | case2 | case4 | case6 | case7 =>
    cases h
    exact Undecodable.worded_mk hcodec (by decide) _ _ _
  | case5 | case9 =>
    rename_i ih
    exact ih h

end

/-! ## §3. Blocks and files -/

section

variable {isLast : Bool} {bytes : List UInt8} {f : Fault}

theorem Block.ofDecoder_of_eq {charset : Charset} {d : Decoded}
    (hd : ∀ u, d = .error u → u.Worded) (h : Block.of charset d = .error f) : OfDecoder f := by
  cases d with
  | ok r => cases h
  | error u =>
    cases h
    exact ⟨rfl, (hd u rfl).printable_text⟩

/-- A block that cannot be decoded is reported in the decoder's words. -/
theorem ofDecoder_of_decodeBlock {cs : Charset} (h : cs.decodeBlock isLast bytes = .error f) :
    OfDecoder f := by
  cases cs with
  | utf8 => exact Block.ofDecoder_of_eq (fun u => Utf8.worded_of_decode) h
  | utf8Marked =>
    rw [decodeBlock, decodeUtf8Marked] at h
    split at h
    · cases h
    split at h
    · exact Block.ofDecoder_of_eq (fun u => Utf8.worded_of_decode) h
    · exact Block.ofDecoder_of_eq (fun u => Utf8.worded_of_decode) h
  | ascii | latin1 | windows1252 =>
    exact Block.ofDecoder_of_eq
      (fun u => SingleByte.Table.worded_of_run (by decide) (by decide)) h
  | utf16Marked =>
    rw [decodeBlock, decodeUtf16Marked] at h
    split at h
    · exact Block.ofDecoder_of_eq (fun u => Utf16.worded_of_run) h
    · split at h
      · cases h
      · cases h
        exact ⟨rfl, by decide⟩
      · next hu =>
        cases h
        exact ⟨rfl, (Utf16.worded_of_run hu).printable_text⟩
  | utf16 order => exact Block.ofDecoder_of_eq (fun u => Utf16.worded_of_run) h

end

/-- What may come behind the characters of a file: nothing, or a fault of its decoder. -/
def FileTail (tail : List Read) : Prop := tail = [] ∨ ∃ f, OfDecoder f ∧ tail = [.fault f]

theorem readsFrom_shape (cs : Charset) (waiting : List Char) (carried bytes : List UInt8) :
    ∃ (text : List Char) (tail : List Read), FileTail tail ∧
      cs.readsFrom waiting carried bytes = text.map .char ++ tail := by
  have hfault : ∀ {isLast block f}, cs.decodeBlock isLast block = .error f →
      FileTail [.fault f] := by
    intro isLast block f h
    exact .inr ⟨f, ofDecoder_of_decodeBlock h, rfl⟩
  by_cases hbytes : bytes = []
  · subst hbytes
    rw [readsFrom_nil]
    rcases hblock : cs.decodeBlock true carried with f | block
    · exact ⟨[], _, hfault hblock, rfl⟩
    · exact ⟨_, [], .inl rfl, (List.append_nil _).symm⟩
  · rw [readsFrom_of_ne_nil _ _ _ hbytes]
    rcases hblock : cs.decodeBlock false (carried ++ bytes.take blockSize) with f | block
    · exact ⟨[], _, hfault hblock, rfl⟩
    · -- What the block gives comes in front of whatever the later blocks give.
      obtain ⟨text, tail, htail, hlater⟩ := readsFrom_shape block.charset
        (lastReturn (waiting ++ block.chars)) block.rest (bytes.drop blockSize)
      refine ⟨withoutReturn (waiting ++ block.chars) ++ text, tail, htail, ?_⟩
      simp only [hlater, List.map_append, List.append_assoc]
termination_by bytes.length
decreasing_by
  have hlength := List.length_pos_iff.2 hbytes
  simp only [blockSize, List.length_drop]
  omega

/-- A file gives characters, and then nothing or a fault of its decoder. -/
theorem reads_shape (cs : Charset) (bytes : List UInt8) :
    ∃ (text : List Char) (tail : List Read), FileTail tail ∧
      cs.reads bytes = text.map .char ++ tail :=
  readsFrom_shape cs [] [] bytes

end RpalLex.Charset
