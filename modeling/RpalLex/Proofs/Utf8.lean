import Mathlib.Algebra.Group.Nat.Defs
import RpalLex.Charset.Decoding

/-! # UTF-8 read byte by byte

  The decoder is a machine that takes one byte at a time, and what it knows
  in the middle of a character is a sequence.  The other side is the encoding
  of a character as a whole, a first byte and the groups of six bits that
  follow it.

  A sequence *awaits* the code points that may still come of it: its bits are
  their leading ones, and their next byte is in its range (§1).  A first byte
  begins a sequence that awaits exactly the characters whose encoding begins
  with it (§2), and a further byte narrows the choice down until one is left
  (§3).  So whatever the machine takes is the encoding of what it makes of it
  (`eq_encode_append_of_run`), and it takes every encoding, cut off anywhere
  (`exists_run_eq_ok`).

  Main statements: `eq_encode_append_of_decode` and `exists_decode_eq_ok` (the
  same for a block). -/

namespace RpalLex.Charset.Utf8

/-! ## §1. Sequences and code points -/

/-- The byte that carries the group of six bits of a code point which `n` groups follow. -/
def follower (v n : Nat) : UInt8 := .ofNat (0x80 + v / 64 ^ n % 64)

/-- The bytes that carry the last `n` groups. -/
def followers (v : Nat) : Nat → List UInt8
  | 0 => []
  | n + 1 => follower v n :: followers v n

/-- The code point may still come of the sequence. -/
structure Sequence.Awaits (s : Sequence) (v : Nat) : Prop where
  needed_pos : 0 < s.needed
  code_eq : s.code = v / 64 ^ s.needed
  low_le : s.low.toNat ≤ 0x80 + v / 64 ^ (s.needed - 1) % 64
  le_high : 0x80 + v / 64 ^ (s.needed - 1) % 64 ≤ s.high.toNat

/-- The bytes of a text. -/
def encode (cs : List Char) : List UInt8 := cs.flatMap String.utf8EncodeChar

@[simp] theorem encode_nil : encode [] = [] := rfl

@[simp] theorem encode_cons (c : Char) (cs : List Char) :
    encode (c :: cs) = String.utf8EncodeChar c ++ encode cs := rfl

@[simp] theorem encode_append (cs ds : List Char) : encode (cs ++ ds) = encode cs ++ encode ds :=
  List.flatMap_append

variable {s s' : Sequence} {st : Option Sequence} {v n : Nat} {b : UInt8} {c : Char}
  {cs ds : List Char} {bytes p q rest : List UInt8} {isLast : Bool}

theorem toNat_follower (v n : Nat) : (follower v n).toNat = 0x80 + v / 64 ^ n % 64 := by
  rw [follower, UInt8.toNat_ofNat_of_lt']
  simp only [UInt8.size]
  omega

theorem div_pow_succ (v n : Nat) : v / 64 ^ (n + 1) = v / 64 ^ n / 64 := by
  rw [Nat.pow_succ, Nat.div_div_eq_div_mul]

theorem toNat_ofNat (h : v.isValidChar) : (Char.ofNat v).toNat = v := by
  rw [Char.ofNat, dif_pos h]
  rfl

theorem ofNat_eq_iff {k : Nat} (h : k < 256) : UInt8.ofNat k = b ↔ b.toNat = k := by
  rw [← UInt8.toNat_inj, UInt8.toNat_ofNat_of_lt' (by simpa [UInt8.size] using h), eq_comm]

/-! ## §2. First bytes -/

/-- The encoding of a character by the size of its code point. -/
theorem utf8EncodeChar_ofNat (h : v.isValidChar) :
    String.utf8EncodeChar (Char.ofNat v) =
      if v ≤ 0x7f then [.ofNat v]
      else if v ≤ 0x7ff then .ofNat (v / 64 + 0xc0) :: followers v 1
      else if v ≤ 0xffff then .ofNat (v / 4096 + 0xe0) :: followers v 2
      else .ofNat (v / 262144 + 0xf0) :: followers v 3 := by
  have hval : (Char.ofNat v).val.toNat = v := toNat_ofNat h
  have hle : v < 0x110000 := by
    simp only [Nat.isValidChar] at h
    omega
  simp only [String.utf8EncodeChar, hval, followers, follower, Nat.reducePow, Nat.div_one,
    Nat.add_comm 128]
  -- The bits of the first byte are few enough, so nothing is cut off.
  split
  · rfl
  · split
    · have hlead : v / 64 % 32 = v / 64 := Nat.mod_eq_of_lt (by omega)
      rw [hlead]
    · split
      · have hlead : v / 4096 % 16 = v / 4096 := Nat.mod_eq_of_lt (by omega)
        rw [hlead]
      · have hlead : v / 262144 % 8 = v / 262144 := Nat.mod_eq_of_lt (by omega)
        rw [hlead]

theorem begin?_eq_some_iff : Sequence.begin? b = some s ↔
    (0xc2 ≤ b.toNat ∧ b.toNat ≤ 0xdf) ∧ s = ⟨[b], b.toNat - 0xc0, 1, 0x80, 0xbf⟩ ∨
    (0xe0 ≤ b.toNat ∧ b.toNat ≤ 0xef) ∧ s = ⟨[b], b.toNat - 0xe0, 2,
      if b = 0xe0 then 0xa0 else 0x80, if b = 0xed then 0x9f else 0xbf⟩ ∨
    (0xf0 ≤ b.toNat ∧ b.toNat ≤ 0xf4) ∧ s = ⟨[b], b.toNat - 0xf0, 3,
      if b = 0xf0 then 0x90 else 0x80, if b = 0xf4 then 0x8f else 0xbf⟩ := by
  simp only [Sequence.begin?, UInt8.le_iff_toNat_le, UInt8.reduceToNat]
  split
  · next hb =>
    have hno : ¬ (0xe0 ≤ b.toNat ∧ b.toNat ≤ 0xef) := by omega
    have hno' : ¬ (0xf0 ≤ b.toNat ∧ b.toNat ≤ 0xf4) := by omega
    simp only [hb, hno, hno', and_self, true_and, false_and, or_false, Option.some.injEq, eq_comm]
  · split
    · next hno hb =>
      have hno' : ¬ (0xf0 ≤ b.toNat ∧ b.toNat ≤ 0xf4) := by omega
      simp only [hb, hno, hno', and_self, true_and, false_and, or_false, false_or,
        Option.some.injEq, eq_comm]
    · split
      · next hno hno' hb =>
        simp only [hb, hno, hno', and_self, true_and, false_and, false_or, Option.some.injEq,
          eq_comm]
      · next hno hno' hno'' => simp only [hno, hno', hno'', false_and, or_false, reduceCtorEq]

theorem awaits_two_iff :
    (0xc2 ≤ b.toNat ∧ b.toNat ≤ 0xdf) ∧ Sequence.Awaits ⟨[b], b.toNat - 0xc0, 1, 0x80, 0xbf⟩ v ↔
      0x80 ≤ v ∧ v ≤ 0x7ff ∧ b.toNat = v / 64 + 0xc0 := by
  constructor
  · rintro ⟨hb, -, hcode, -, -⟩
    simp only [Nat.pow_one] at hcode
    omega
  · rintro ⟨hv, hv', hb⟩
    refine ⟨by omega, Nat.one_pos, ?_, ?_, ?_⟩
    · simp only [Nat.pow_one]
      omega
    · simp only [UInt8.reduceToNat]
      omega
    · simp only [UInt8.reduceToNat]
      omega

/-- The range of the second byte leaves out long forms and surrogates. -/
theorem awaits_three_iff :
    (0xe0 ≤ b.toNat ∧ b.toNat ≤ 0xef) ∧
        Sequence.Awaits ⟨[b], b.toNat - 0xe0, 2, if b = 0xe0 then 0xa0 else 0x80,
          if b = 0xed then 0x9f else 0xbf⟩ v ↔
      0x800 ≤ v ∧ v ≤ 0xffff ∧ v.isValidChar ∧ b.toNat = v / 4096 + 0xe0 := by
  have he0 : b = 0xe0 ↔ b.toNat = 0xe0 := UInt8.toNat_inj.symm
  have hed : b = 0xed ↔ b.toNat = 0xed := UInt8.toNat_inj.symm
  simp only [Nat.isValidChar]
  constructor
  · rintro ⟨hb, -, hcode, hlow, hhigh⟩
    simp only [he0, hed, apply_ite UInt8.toNat, UInt8.reduceToNat, Nat.reducePow,
      Nat.reduceSub] at hcode hlow hhigh
    split at hlow <;> split at hhigh <;> omega
  · rintro ⟨hv, hv', hvalid, hb⟩
    refine ⟨by omega, Nat.two_pos, ?_, ?_, ?_⟩
    · simp only [Nat.reducePow]
      omega
    · simp only [he0, apply_ite UInt8.toNat, UInt8.reduceToNat, Nat.reducePow, Nat.reduceSub]
      split <;> omega
    · simp only [hed, apply_ite UInt8.toNat, UInt8.reduceToNat, Nat.reducePow, Nat.reduceSub]
      split <;> omega

/-- The range of the second byte leaves out long forms and what lies above U+10FFFF. -/
theorem awaits_four_iff :
    (0xf0 ≤ b.toNat ∧ b.toNat ≤ 0xf4) ∧
        Sequence.Awaits ⟨[b], b.toNat - 0xf0, 3, if b = 0xf0 then 0x90 else 0x80,
          if b = 0xf4 then 0x8f else 0xbf⟩ v ↔
      0x10000 ≤ v ∧ v ≤ 0x10ffff ∧ b.toNat = v / 262144 + 0xf0 := by
  have hf0 : b = 0xf0 ↔ b.toNat = 0xf0 := UInt8.toNat_inj.symm
  have hf4 : b = 0xf4 ↔ b.toNat = 0xf4 := UInt8.toNat_inj.symm
  constructor
  · rintro ⟨hb, -, hcode, hlow, hhigh⟩
    simp only [hf0, hf4, apply_ite UInt8.toNat, UInt8.reduceToNat, Nat.reducePow,
      Nat.reduceSub] at hcode hlow hhigh
    split at hlow <;> split at hhigh <;> omega
  · rintro ⟨hv, hv', hb⟩
    refine ⟨by omega, Nat.succ_pos 2, ?_, ?_, ?_⟩
    · simp only [Nat.reducePow]
      omega
    · simp only [hf0, apply_ite UInt8.toNat, UInt8.reduceToNat, Nat.reducePow, Nat.reduceSub]
      split <;> omega
    · simp only [hf4, apply_ite UInt8.toNat, UInt8.reduceToNat, Nat.reducePow, Nat.reduceSub]
      split <;> omega

/-- What a first byte awaits is encoded with this byte in front. -/
theorem utf8EncodeChar_of_begin? (hs : Sequence.begin? b = some s) (hv : s.Awaits v) :
    v.isValidChar ∧ String.utf8EncodeChar (Char.ofNat v) = b :: followers v s.needed := by
  rcases begin?_eq_some_iff.1 hs with ⟨hb, rfl⟩ | ⟨hb, rfl⟩ | ⟨hb, rfl⟩
  · obtain ⟨hle, hle', hb'⟩ := awaits_two_iff.1 ⟨hb, hv⟩
    have hvalid : v.isValidChar := .inl (by omega)
    refine ⟨hvalid, ?_⟩
    rw [utf8EncodeChar_ofNat hvalid, if_neg (by omega), if_pos hle',
      (ofNat_eq_iff (by omega)).2 hb']
  · obtain ⟨hle, hle', hvalid, hb'⟩ := awaits_three_iff.1 ⟨hb, hv⟩
    refine ⟨hvalid, ?_⟩
    rw [utf8EncodeChar_ofNat hvalid, if_neg (by omega), if_neg (by omega), if_pos hle',
      (ofNat_eq_iff (by omega)).2 hb']
  · obtain ⟨hle, hle', hb'⟩ := awaits_four_iff.1 ⟨hb, hv⟩
    have hvalid : v.isValidChar := .inr ⟨by omega, by omega⟩
    refine ⟨hvalid, ?_⟩
    rw [utf8EncodeChar_ofNat hvalid, if_neg (by omega), if_neg (by omega), if_neg (by omega),
      (ofNat_eq_iff (by omega)).2 hb']

/-- The first byte of a character that is not in ASCII begins a sequence that awaits it. -/
theorem exists_begin? (hvalid : v.isValidChar) (hv : 0x80 ≤ v) :
    ∃ b s, Sequence.begin? b = some s ∧ s.Awaits v ∧
      String.utf8EncodeChar (Char.ofNat v) = b :: followers v s.needed := by
  have hle : v < 0x110000 := by
    simp only [Nat.isValidChar] at hvalid
    omega
  have hawaits : ∃ b s, Sequence.begin? b = some s ∧ s.Awaits v := by
    by_cases htwo : v ≤ 0x7ff
    · have hb : (UInt8.ofNat (v / 64 + 0xc0)).toNat = v / 64 + 0xc0 :=
        (ofNat_eq_iff (by omega)).1 rfl
      obtain ⟨hlead, hs⟩ := awaits_two_iff.2 ⟨hv, htwo, hb⟩
      exact ⟨_, _, begin?_eq_some_iff.2 (.inl ⟨hlead, rfl⟩), hs⟩
    · by_cases hthree : v ≤ 0xffff
      · have hb : (UInt8.ofNat (v / 4096 + 0xe0)).toNat = v / 4096 + 0xe0 :=
          (ofNat_eq_iff (by omega)).1 rfl
        obtain ⟨hlead, hs⟩ := awaits_three_iff.2 ⟨by omega, hthree, hvalid, hb⟩
        exact ⟨_, _, begin?_eq_some_iff.2 (.inr (.inl ⟨hlead, rfl⟩)), hs⟩
      · have hb : (UInt8.ofNat (v / 262144 + 0xf0)).toNat = v / 262144 + 0xf0 :=
          (ofNat_eq_iff (by omega)).1 rfl
        obtain ⟨hlead, hs⟩ := awaits_four_iff.2 ⟨by omega, by omega, hb⟩
        exact ⟨_, _, begin?_eq_some_iff.2 (.inr (.inr ⟨hlead, rfl⟩)), hs⟩
  obtain ⟨b, s, hs, hv⟩ := hawaits
  exact ⟨b, s, hs, hv, (utf8EncodeChar_of_begin? hs hv).2⟩

/-! ## §3. Further bytes -/

/-- A byte in the range ends the character or goes on with it. -/
theorem step_some (hn : s.needed = n + 1) (b : UInt8) :
    step (some s) b =
      if s.low ≤ b ∧ b ≤ s.high then
        if n = 0 then .char (Char.ofNat (s.code * 64 + (b.toNat - 0x80)))
        else .sequence ⟨s.bytes ++ [b], s.code * 64 + (b.toNat - 0x80), n, 0x80, 0xbf⟩
      else .refused := by
  have hlast : n + 1 = 1 ↔ n = 0 := by omega
  simp only [step, hn, hlast, Nat.add_sub_cancel]

/-- A sequence takes the next byte of a code point that it awaits. -/
theorem Sequence.Awaits.step_eq (h : s.Awaits v) (hn : s.needed = n + 1) :
    step (some s) (follower v n) =
      if n = 0 then .char (Char.ofNat (v / 64 ^ n))
      else .sequence ⟨s.bytes ++ [follower v n], v / 64 ^ n, n, 0x80, 0xbf⟩ := by
  have hlow := h.low_le
  have hhigh := h.le_high
  have hcode : s.code * 64 + ((follower v n).toNat - 0x80) = v / 64 ^ n := by
    rw [h.code_eq, hn, toNat_follower, div_pow_succ]
    omega
  rw [hn, Nat.add_sub_cancel, ← toNat_follower, ← UInt8.le_iff_toNat_le] at hlow hhigh
  rw [step_some hn, if_pos ⟨hlow, hhigh⟩, hcode]

/-- Behind the first two bytes, all code points with these leading bits are awaited. -/
theorem awaits_next (v : Nat) (bytes : List UInt8) (hn : n ≠ 0) :
    Sequence.Awaits ⟨bytes, v / 64 ^ n, n, 0x80, 0xbf⟩ v where
  needed_pos := Nat.pos_of_ne_zero hn
  code_eq := rfl
  low_le := by
    simp only [UInt8.reduceToNat]
    omega
  le_high := by
    simp only [UInt8.reduceToNat]
    omega

/-- The sequence awaits characters only, and its bytes are the first ones of their encodings. -/
structure Sequence.Opens (s : Sequence) : Prop where
  needed_pos : 0 < s.needed
  length_le : s.bytes.length + s.needed ≤ 4
  le_low : 0x80 ≤ s.low.toNat
  high_le : s.high.toNat ≤ 0xbf
  encodes : ∀ v, s.Awaits v → v.isValidChar ∧
    String.utf8EncodeChar (Char.ofNat v) = s.bytes ++ followers v s.needed

theorem opens_of_begin? (h : Sequence.begin? b = some s) : s.Opens ∧ s.bytes = [b] := by
  have hencodes := fun v hv => utf8EncodeChar_of_begin? (v := v) h hv
  rcases begin?_eq_some_iff.1 h with ⟨-, rfl⟩ | ⟨-, rfl⟩ | ⟨-, rfl⟩
  · exact ⟨⟨Nat.one_pos, by simp, by simp, by simp, hencodes⟩, rfl⟩
  · refine ⟨⟨Nat.two_pos, by simp, ?_, ?_, hencodes⟩, rfl⟩
    · simp only [apply_ite UInt8.toNat, UInt8.reduceToNat]
      split <;> omega
    · simp only [apply_ite UInt8.toNat, UInt8.reduceToNat]
      split <;> omega
  · refine ⟨⟨Nat.succ_pos 2, by simp, ?_, ?_, hencodes⟩, rfl⟩
    · simp only [apply_ite UInt8.toNat, UInt8.reduceToNat]
      split <;> omega
    · simp only [apply_ite UInt8.toNat, UInt8.reduceToNat]
      split <;> omega

/-- The code points that begin with the bits of a sequence and of a byte in its range are awaited,
    and this is their next byte. -/
theorem Sequence.Opens.awaits_of_code (h : s.Opens) (hn : s.needed = n + 1) (hlow : s.low ≤ b)
    (hhigh : b ≤ s.high) (hcode : s.code * 64 + (b.toNat - 0x80) = v / 64 ^ n) :
    s.Awaits v ∧ b = follower v n := by
  have hle := h.le_low
  have hle' := h.high_le
  rw [UInt8.le_iff_toNat_le] at hlow hhigh
  have hgroup : b.toNat = 0x80 + v / 64 ^ n % 64 := by omega
  refine ⟨⟨h.needed_pos, ?_, ?_, ?_⟩, ?_⟩
  · rw [hn, div_pow_succ]
    omega
  · rw [hn, Nat.add_sub_cancel]
    omega
  · rw [hn, Nat.add_sub_cancel]
    omega
  · rw [← UInt8.toNat_inj, toNat_follower, hgroup]

/-- A byte that goes on narrows down what is awaited. -/
theorem Sequence.Opens.of_step (h : s.Opens) (hstep : step (some s) b = .sequence s') :
    s'.Opens ∧ s'.bytes = s.bytes ++ [b] := by
  obtain ⟨n, hn⟩ := Nat.exists_eq_add_one_of_ne_zero (Nat.ne_of_gt h.needed_pos)
  rw [step_some hn] at hstep
  split at hstep
  · next hrange =>
    split at hstep
    · cases hstep
    · next hgoes =>
      obtain rfl := Step.sequence.inj hstep
      refine ⟨⟨Nat.pos_of_ne_zero hgoes, ?_, by simp, by simp, ?_⟩, rfl⟩
      · have hlength := h.length_le
        simp only [List.length_append, List.length_singleton]
        omega
      · -- What is awaited now was awaited before, with this byte next.
        intro v hv
        obtain ⟨hv', hb⟩ := h.awaits_of_code hn hrange.1 hrange.2 hv.code_eq
        obtain ⟨hvalid, hencode⟩ := h.encodes v hv'
        refine ⟨hvalid, ?_⟩
        rw [hencode, hn, List.append_assoc, List.singleton_append]
        simp only [followers, ← hb]
  · cases hstep

/-- A byte that ends a character is the last one of its encoding. -/
theorem Sequence.Opens.encode_of_step (h : s.Opens) (hstep : step (some s) b = .char c) :
    String.utf8EncodeChar c = s.bytes ++ [b] := by
  obtain ⟨n, hn⟩ := Nat.exists_eq_add_one_of_ne_zero (Nat.ne_of_gt h.needed_pos)
  rw [step_some hn] at hstep
  split at hstep
  · next hrange =>
    split at hstep
    · next hlast =>
      subst hlast
      obtain rfl := Step.char.inj hstep
      obtain ⟨hv, hb⟩ := h.awaits_of_code hn hrange.1 hrange.2
        (by rw [Nat.pow_zero, Nat.div_one])
      rw [(h.encodes _ hv).2, hn]
      simp only [followers, ← hb]
    · cases hstep
  · cases hstep

/-! ## §4. What the machine takes -/

/-- Between characters or in a sequence that opens characters. -/
def Sound (st : Option Sequence) : Prop := ∀ s, st = some s → s.Opens

theorem sound_none : Sound none := by
  intro s hs
  cases hs

theorem step_none (b : UInt8) :
    step none b =
      if b < 0x80 then .char (Char.ofNat b.toNat)
      else match Sequence.begin? b with
        | some s => .sequence s
        | none => .refused := rfl

theorem Sound.of_step (hst : Sound st) (hstep : step st b = .sequence s) :
    s.Opens ∧ s.bytes = begun st ++ [b] := by
  cases st with
  | none =>
    rw [step_none] at hstep
    split at hstep
    · cases hstep
    · split at hstep
      · next hs =>
        obtain rfl := Step.sequence.inj hstep
        exact opens_of_begin? hs
      · cases hstep
  | some s0 => exact (hst s0 rfl).of_step hstep

theorem Sound.encode_of_step (hst : Sound st) (hstep : step st b = .char c) :
    String.utf8EncodeChar c = begun st ++ [b] := by
  cases st with
  | none =>
    rw [step_none] at hstep
    split at hstep
    · next hb =>
      obtain rfl := Step.char.inj hstep
      have hlt : b.toNat < 0x80 := UInt8.lt_iff_toNat_lt.1 hb
      rw [utf8EncodeChar_ofNat (.inl (by omega)), if_pos (by omega), UInt8.ofNat_toNat]
      rfl
    · split at hstep
      · cases hstep
      · cases hstep
  | some s0 => exact (hst s0 rfl).encode_of_step hstep

/-- What is taken is the encoding of the characters made of it, and what is left over is short. -/
theorem eq_encode_append_of_run {position : Nat} {chars out : List Char} (hst : Sound st)
    (h : run isLast position st chars bytes = .ok (out, rest)) :
    ∃ cs, out = chars.reverse ++ cs ∧ begun st ++ bytes = encode cs ++ rest ∧ rest.length ≤ 3 := by
  induction bytes generalizing position st chars with
  | nil =>
    rw [run] at h
    cases h
    refine ⟨[], by simp, by simp, ?_⟩
    cases st with
    | none => exact Nat.zero_le 3
    | some s =>
      have hlength := (hst s rfl).length_le
      have hneeded := (hst s rfl).needed_pos
      show s.bytes.length ≤ 3
      omega
  | cons b bytes ih =>
    rw [run] at h
    split at h
    · next c hstep =>
      obtain ⟨cs, hout, hbytes, hrest⟩ := ih sound_none h
      refine ⟨c :: cs, by simp [hout], ?_, hrest⟩
      have hbytes' : bytes = encode cs ++ rest := hbytes
      rw [encode_cons, hst.encode_of_step hstep, hbytes']
      simp
    · next s hstep =>
      obtain ⟨hopens, hs⟩ := hst.of_step hstep
      have hsound : Sound (some s) := by
        intro s' hs'
        cases hs'
        exact hopens
      obtain ⟨cs, hout, hbytes, hrest⟩ := ih hsound h
      refine ⟨cs, hout, ?_, hrest⟩
      have hbegun : begun (some s) = begun st ++ [b] := hs
      rw [← hbytes, hbegun]
      simp
    · split at h
      · next hsurrogate =>
        -- Two bytes that would begin a surrogate are handed back.
        cases h
        simp only [beginsSurrogate, Bool.and_eq_true, beq_iff_eq, List.isEmpty_iff] at hsurrogate
        obtain ⟨⟨-, rfl⟩, ⟨hbegun, -⟩, -⟩ := hsurrogate
        refine ⟨[], by simp, by simp, ?_⟩
        rw [hbegun]
        exact Nat.le_succ 2
      · cases h

/-! ## §5. What the machine makes of an encoding -/

theorem run_followers (h : s.Awaits v) (isLast : Bool) (position : Nat) (chars : List Char)
    (rest : List UInt8) :
    ∃ position', run isLast position (some s) chars (followers v s.needed ++ rest) =
      run isLast position' none (Char.ofNat v :: chars) rest := by
  obtain ⟨n, hn⟩ := Nat.exists_eq_add_one_of_ne_zero (Nat.ne_of_gt h.needed_pos)
  induction n generalizing s position with
  | zero =>
    refine ⟨position + 1, ?_⟩
    rw [hn, followers, followers, List.singleton_append, run, h.step_eq hn, if_pos rfl,
      Nat.pow_zero, Nat.div_one]
  | succ n ih =>
    have hnext := awaits_next v (s.bytes ++ [follower v (n + 1)]) (Nat.succ_ne_zero n)
    obtain ⟨position', hrun⟩ := ih hnext (position + 1) rfl
    refine ⟨position', ?_⟩
    rw [hn, followers, List.cons_append, run, h.step_eq hn, if_neg (Nat.succ_ne_zero n)]
    exact hrun

/-- Where the bytes of a character are cut off, they are left over. -/
theorem run_of_followers_eq (h : s.Awaits v) (hp : followers v s.needed = p ++ b :: q)
    (isLast : Bool) (position : Nat) (chars : List Char) :
    run isLast position (some s) chars p = .ok (chars.reverse, s.bytes ++ p) := by
  induction p generalizing s position with
  | nil =>
    rw [run, List.append_nil]
    rfl
  | cons a p ih =>
    obtain ⟨n, hn⟩ := Nat.exists_eq_add_one_of_ne_zero (Nat.ne_of_gt h.needed_pos)
    rw [hn, followers, List.cons_append, List.cons.injEq] at hp
    obtain ⟨rfl, hp⟩ := hp
    -- This byte is not the last one, because the last one is cut off.
    have hne : n ≠ 0 := by
      rintro rfl
      have hlength := congrArg List.length hp
      simp [followers] at hlength
    rw [run, h.step_eq hn, if_neg hne]
    have hrun := ih (awaits_next v (s.bytes ++ [follower v n]) hne) hp (position + 1)
    rw [List.append_assoc] at hrun
    exact hrun

theorem step_of_begin? (h : Sequence.begin? b = some s) : step none b = .sequence s := by
  have hno : ¬ b < 0x80 := by
    have hlead := begin?_eq_some_iff.1 h
    simp only [UInt8.lt_iff_toNat_lt, UInt8.reduceToNat]
    omega
  rw [step_none, if_neg hno, h]

/-- A character is encoded by one byte, or by a first byte and the bytes that follow it. -/
theorem utf8EncodeChar_cases (c : Char) :
    (∃ b, step none b = .char c ∧ String.utf8EncodeChar c = [b]) ∨
      ∃ b s, step none b = .sequence s ∧ s.Awaits c.toNat ∧ s.bytes = [b] ∧
        String.utf8EncodeChar c = b :: followers c.toNat s.needed := by
  have hvalid : c.toNat.isValidChar := c.valid
  have hc : Char.ofNat c.toNat = c := Char.ofNat_toNat c
  by_cases hsmall : c.toNat < 0x80
  · left
    have hb : (UInt8.ofNat c.toNat).toNat = c.toNat := (ofNat_eq_iff (by omega)).1 rfl
    refine ⟨.ofNat c.toNat, ?_, ?_⟩
    · rw [step_none, if_pos (UInt8.lt_iff_toNat_lt.2 (by rw [hb]; exact hsmall)), hb, hc]
    · rw [← hc, utf8EncodeChar_ofNat hvalid, if_pos (by omega), hc]
  · right
    obtain ⟨b, s, hs, hv, hencode⟩ := exists_begin? hvalid (by omega)
    rw [hc] at hencode
    exact ⟨b, s, step_of_begin? hs, hv, (opens_of_begin? hs).2, hencode⟩

theorem run_utf8EncodeChar (c : Char) (isLast : Bool) (position : Nat) (chars : List Char)
    (rest : List UInt8) :
    ∃ position', run isLast position none chars (String.utf8EncodeChar c ++ rest) =
      run isLast position' none (c :: chars) rest := by
  rcases utf8EncodeChar_cases c with ⟨b, hstep, hencode⟩ | ⟨b, s, hstep, hv, -, hencode⟩
  · refine ⟨position + 1, ?_⟩
    rw [hencode, List.singleton_append, run, hstep]
  · obtain ⟨position', hrun⟩ := run_followers hv isLast (position + 1) chars rest
    refine ⟨position', ?_⟩
    rw [hencode, List.cons_append, run, hstep]
    rw [Char.ofNat_toNat] at hrun
    exact hrun

theorem run_of_utf8EncodeChar_eq (hp : String.utf8EncodeChar c = p ++ b :: q) (isLast : Bool)
    (position : Nat) (chars : List Char) :
    run isLast position none chars p = .ok (chars.reverse, p) := by
  cases p with
  | nil => rfl
  | cons a p =>
    rcases utf8EncodeChar_cases c with ⟨d, -, hencode⟩ | ⟨d, s, hstep, hv, hs, hencode⟩
    · have hlength := congrArg List.length (hencode.symm.trans hp)
      simp at hlength
    · rw [hencode, List.cons_append, List.cons.injEq] at hp
      obtain ⟨rfl, hp⟩ := hp
      rw [run, hstep]
      have hrun := run_of_followers_eq hv hp isLast (position + 1) chars
      rw [hs] at hrun
      exact hrun

/-- The beginning of an encoding gives the characters that it has whole, and the bytes of the next
    one are left over. -/
theorem exists_run_eq_ok (h : p ++ q = encode cs) (isLast : Bool) (position : Nat)
    (chars : List Char) :
    ∃ ds es rest, cs = ds ++ es ∧
      run isLast position none chars p = .ok (chars.reverse ++ ds, rest) ∧
      rest ++ q = encode es ∧ (q = [] → es = []) := by
  induction cs generalizing p position chars with
  | nil =>
    obtain ⟨rfl, rfl⟩ := List.append_eq_nil_iff.1 h
    exact ⟨[], [], [], rfl, by simp [run, begun], rfl, fun _ => rfl⟩
  | cons c cs ih =>
    -- The cut goes through the first character or lies behind it.
    have hcut : (∃ b d, String.utf8EncodeChar c = p ++ b :: d ∧ q = b :: d ++ encode cs) ∨
        ∃ p', p = String.utf8EncodeChar c ++ p' ∧ p' ++ q = encode cs := by
      rw [encode_cons, List.append_eq_append_iff] at h
      rcases h with ⟨_ | ⟨b, d⟩, hc, hq⟩ | ⟨p', hp, hq⟩
      · exact .inr ⟨[], by rw [hc, List.append_nil, List.append_nil], hq⟩
      · exact .inl ⟨b, d, hc, hq⟩
      · exact .inr ⟨p', hp, hq.symm⟩
    rcases hcut with ⟨b, d, hc, hq⟩ | ⟨p', rfl, hp'⟩
    · refine ⟨[], c :: cs, p, rfl, ?_, ?_, ?_⟩
      · rw [run_of_utf8EncodeChar_eq hc, List.append_nil]
      · rw [hq, encode_cons, hc, List.append_assoc]
      · rintro rfl
        cases hq
    · obtain ⟨position', hrun⟩ := run_utf8EncodeChar c isLast position chars p'
      obtain ⟨ds, es, rest, rfl, hrun', hrest, hnil⟩ := ih hp' position' (c :: chars)
      refine ⟨c :: ds, es, rest, rfl, ?_, hrest, hnil⟩
      rw [hrun, hrun']
      simp

/-! ## §6. Blocks -/

/-- What a block decodes to is what its bytes encode, up to a few at its end. -/
theorem eq_encode_append_of_decode (h : decode isLast bytes = .ok (cs, rest)) :
    bytes = encode cs ++ rest ∧ rest.length ≤ 3 ∧ (isLast = true → rest = []) := by
  have hrun : run isLast 0 none [] bytes = .ok (cs, rest) ∧ (isLast = true → rest = []) := by
    unfold decode at h
    split at h
    · next hrun =>
      split at h
      · cases h
      · next hlast =>
        cases h
        exact ⟨hrun, fun htrue => absurd htrue hlast⟩
    · next hne =>
      refine ⟨h, fun _ => ?_⟩
      cases rest with
      | nil => rfl
      | cons b rest => exact absurd h (hne cs b rest)
  obtain ⟨hrun, hlast⟩ := hrun
  obtain ⟨ds, hout, hbytes, hrest⟩ := eq_encode_append_of_run sound_none hrun
  obtain rfl : cs = ds := hout
  exact ⟨hbytes, hrest, hlast⟩

/-- The beginning of an encoding is decoded; at its end nothing is left over. -/
theorem exists_decode_eq_ok (h : p ++ q = encode cs) (isLast : Bool)
    (hlast : isLast = true → q = []) :
    ∃ ds es rest, cs = ds ++ es ∧ decode isLast p = .ok (ds, rest) ∧ rest ++ q = encode es ∧
      (q = [] → es = []) := by
  obtain ⟨ds, es, rest, hcs, hrun, hrest, hnil⟩ := exists_run_eq_ok h isLast 0 []
  refine ⟨ds, es, rest, hcs, ?_, hrest, hnil⟩
  have hrun' : run isLast 0 none [] p = .ok (ds, rest) := hrun
  rw [decode, hrun']
  cases rest with
  | nil => rfl
  | cons b rest =>
    have hno : isLast ≠ true := by
      intro htrue
      obtain rfl := hnil (hlast htrue)
      cases hrest
    simp only [if_neg hno]

end RpalLex.Charset.Utf8
