import RpalLex.File.Opening
import RpalLex.Proofs.Iteration
import RpalLex.Proofs.ReadFailure
import RpalLex.Proofs.Utf8

/-! # A file and its text

  A file is decoded block by block.  Wherever the blocks cut its bytes, the
  characters come out as if it had been decoded as a whole: what a block
  leaves over, of bytes and of line ends, belongs in front of the next one
  (§1).

  Bytes that are no text make one of the blocks faulty.  Then the stream
  delivers the blocks in front of it and fails (§2), and a lexer over such a
  stream finds an invalid character in what was delivered, or it reports the
  failure (§3).

  Main statements: `readsFrom_of_encode`, `readsFrom_cases` and
  `tokenize_utf8_file`. -/

namespace RpalLex

namespace Charset

open Utf8

variable {waiting before : List Char} {carried bytes : List UInt8} {f : Fault} {isLast : Bool}
  {block : Block}

/-! ## §1. Bytes that are a text -/

theorem decodeBlock_utf8 {cs : List Char} {rest : List UInt8}
    (h : decode isLast bytes = .ok (cs, rest)) :
    utf8.decodeBlock isLast bytes = .ok ⟨cs, rest, utf8⟩ := by
  rw [decodeBlock, h]
  rfl

/-- What is carried over and what is still unread encode a text.  Then this text is read. -/
theorem readsFrom_of_encode (waiting : List Char) {carried bytes : List UInt8} {t : List Char}
    (h : carried ++ bytes = encode t) :
    utf8.readsFrom waiting carried bytes = (waiting ++ t).map .char := by
  by_cases hbytes : bytes = []
  · subst hbytes
    obtain ⟨ds, es, rest, rfl, hdecode, -, hnil⟩ := exists_decode_eq_ok h true (by simp)
    rw [readsFrom_nil, decodeBlock_utf8 hdecode, hnil rfl, List.append_nil]
  · -- The block decodes to a beginning of the text, and what it leaves over encodes the rest with
    -- the blocks behind it.
    have hsplit : carried ++ bytes.take blockSize ++ bytes.drop blockSize = encode t := by
      rw [List.append_assoc, List.take_append_drop, h]
    obtain ⟨ds, es, rest, rfl, hdecode, hrest, -⟩ := exists_decode_eq_ok hsplit false (by simp)
    have hlater := readsFrom_of_encode (lastReturn (waiting ++ ds)) hrest
    rw [readsFrom_of_ne_nil _ _ _ hbytes, decodeBlock_utf8 hdecode]
    show (withoutReturn (waiting ++ ds)).map .char ++ utf8.readsFrom _ _ _ = _
    rw [hlater, ← List.map_append, ← List.append_assoc, withoutReturn_append, List.append_assoc]
termination_by bytes.length
decreasing_by
  have hlength := List.length_pos_iff.2 hbytes
  simp only [blockSize, List.length_drop]
  omega

/-! ## §2. Bytes that are no text -/

/-- The decoding of a file breaks off with a fault, from what the blocks so far left over and the
    bytes still unread.  The blocks in front of the faulty one encode the text `before`, and behind
    it perhaps a carriage return that waits and a few bytes that begin a character. -/
def BreaksOff (waiting : List Char) (carried bytes : List UInt8) (before : List Char) (f : Fault) :
    Prop :=
  ∃ n waiting' carried',
    encode waiting ++ carried ++ bytes.take (n * blockSize) =
      encode before ++ encode waiting' ++ carried' ∧
    (waiting' = [] ∨ waiting' = ['\r']) ∧ carried'.length ≤ 3 ∧
    utf8.decodeBlock (bytes.drop (n * blockSize)).isEmpty
      (carried' ++ (bytes.drop (n * blockSize)).take blockSize) = .error f

theorem eq_encode_append_of_decodeBlock (h : utf8.decodeBlock isLast bytes = .ok block) :
    block.charset = utf8 ∧ bytes = encode block.chars ++ block.rest ∧ block.rest.length ≤ 3 ∧
      (isLast = true → block.rest = []) := by
  rw [decodeBlock] at h
  rcases hdecode : decode isLast bytes with u | ⟨cs, rest⟩
  · rw [hdecode] at h
    cases h
  · rw [hdecode] at h
    cases h
    exact ⟨rfl, eq_encode_append_of_decode hdecode⟩

theorem kind_of_decodeBlock (h : utf8.decodeBlock isLast bytes = .error f) :
    f.kind = .undecodable := by
  rw [decodeBlock] at h
  rcases hdecode : decode isLast bytes with u | ⟨cs, rest⟩
  · rw [hdecode] at h
    cases h
    rfl
  · rw [hdecode] at h
    cases h

theorem lastReturn_cases (text : List Char) : lastReturn text = [] ∨ lastReturn text = ['\r'] := by
  unfold lastReturn
  split
  · exact .inr rfl
  · exact .inl rfl

theorem BreaksOff.now (hwaiting : waiting = [] ∨ waiting = ['\r']) (hcarried : carried.length ≤ 3)
    (h : utf8.decodeBlock bytes.isEmpty (carried ++ bytes.take blockSize) = .error f) :
    BreaksOff waiting carried bytes [] f := by
  refine ⟨0, waiting, carried, ?_, hwaiting, hcarried, ?_⟩
  · simp
  · rw [Nat.zero_mul, List.drop_zero]
    exact h

/-- A block that is decoded comes in front. -/
theorem BreaksOff.later
    (hblock : carried ++ bytes.take blockSize = encode block.chars ++ block.rest)
    (h : BreaksOff (lastReturn (waiting ++ block.chars)) block.rest (bytes.drop blockSize) before
      f) :
    BreaksOff waiting carried bytes (withoutReturn (waiting ++ block.chars) ++ before) f := by
  obtain ⟨n, waiting', carried', hprefix, hwaiting, hcarried, hfault⟩ := h
  have hblocks : (n + 1) * blockSize = blockSize + n * blockSize := by
    rw [Nat.succ_mul, Nat.add_comm]
  have htext : encode waiting ++ encode block.chars =
      encode (withoutReturn (waiting ++ block.chars)) ++
        encode (lastReturn (waiting ++ block.chars)) := by
    rw [← encode_append, ← encode_append, withoutReturn_append]
  refine ⟨n + 1, waiting', carried', ?_, hwaiting, hcarried, ?_⟩
  · calc encode waiting ++ carried ++ bytes.take ((n + 1) * blockSize)
        = encode waiting ++ (carried ++ bytes.take blockSize) ++
            (bytes.drop blockSize).take (n * blockSize) := by
          rw [hblocks, List.take_add]
          simp only [List.append_assoc]
      _ = encode waiting ++ encode block.chars ++ block.rest ++
            (bytes.drop blockSize).take (n * blockSize) := by
          rw [hblock]
          simp only [List.append_assoc]
      _ = encode (withoutReturn (waiting ++ block.chars)) ++
            (encode before ++ encode waiting' ++ carried') := by
          rw [htext, ← hprefix]
          simp only [List.append_assoc]
      _ = encode (withoutReturn (waiting ++ block.chars) ++ before) ++ encode waiting' ++
            carried' := by
          rw [encode_append]
          simp only [List.append_assoc]
  · rw [hblocks, ← List.drop_drop]
    exact hfault

theorem BreaksOff.kind_eq (h : BreaksOff waiting carried bytes before f) :
    f.kind = .undecodable := by
  obtain ⟨n, waiting', carried', -, -, -, hfault⟩ := h
  exact kind_of_decodeBlock hfault

/-- The bytes of a file encode a text, or their decoding breaks off. -/
theorem readsFrom_cases {waiting : List Char} {carried : List UInt8}
    (hwaiting : waiting = [] ∨ waiting = ['\r']) (hcarried : carried.length ≤ 3)
    (bytes : List UInt8) :
    (∃ t, carried ++ bytes = encode t) ∨
    ∃ before f, BreaksOff waiting carried bytes before f ∧
      utf8.readsFrom waiting carried bytes = before.map .char ++ [.fault f] := by
  by_cases hbytes : bytes = []
  · subst hbytes
    rcases hblock : utf8.decodeBlock true carried with f | block
    · right
      refine ⟨[], f, .now hwaiting hcarried ?_, ?_⟩
      · simpa using hblock
      · rw [readsFrom_nil, hblock]
        rfl
    · left
      obtain ⟨-, heq, -, hlast⟩ := eq_encode_append_of_decodeBlock hblock
      refine ⟨block.chars, ?_⟩
      rw [List.append_nil, heq, hlast rfl, List.append_nil]
  · rcases hblock : utf8.decodeBlock false (carried ++ bytes.take blockSize) with f | block
    · right
      refine ⟨[], f, .now hwaiting hcarried ?_, ?_⟩
      · rw [List.isEmpty_eq_false_iff.2 hbytes, hblock]
      · rw [readsFrom_of_ne_nil _ _ _ hbytes, hblock]
        rfl
    · -- The block is a text, so it comes in front of whatever the later blocks are.
      obtain ⟨hcharset, heq, hrest, -⟩ := eq_encode_append_of_decodeBlock hblock
      rcases readsFrom_cases (lastReturn_cases (waiting ++ block.chars)) hrest
        (bytes.drop blockSize) with ⟨t, ht⟩ | ⟨before, f, hbreaks, hlater⟩
      · left
        refine ⟨block.chars ++ t, ?_⟩
        rw [encode_append, ← ht, ← List.append_assoc, ← heq, List.append_assoc,
          List.take_append_drop]
      · right
        refine ⟨_, f, hbreaks.later heq, ?_⟩
        rw [readsFrom_of_ne_nil _ _ _ hbytes, hblock]
        simp only [hcharset, hlater, List.map_append, List.append_assoc]
termination_by bytes.length
decreasing_by
  have hlength := List.length_pos_iff.2 hbytes
  simp only [blockSize, List.length_drop]
  omega

theorem reads_cases (bytes : List UInt8) :
    (∃ t, bytes = encode t) ∨
    ∃ before f, BreaksOff [] [] bytes before f ∧
      utf8.reads bytes = before.map .char ++ [.fault f] :=
  @readsFrom_cases [] [] (.inl rfl) (Nat.zero_le 3) bytes

/-- The bytes of a text, as strings keep them. -/
theorem toByteArray_eq_iff {text : String} :
    bytes.toByteArray = text.toUTF8 ↔ bytes = encode text.toList := by
  have htext : text.toUTF8 = (encode text.toList).toByteArray := by
    rw [String.toUTF8_eq_toByteArray, ← String.utf8Encode_toList]
    rfl
  rw [htext]
  constructor
  · intro h
    have hbytes := congrArg (fun b => b.data.toList) h
    simpa only [List.toList_data_toByteArray] using hbytes
  · rintro rfl
    rfl

end Charset

/-! ## §3. Streams that break off -/

namespace Lexer

variable {tail : List Read} {goal : Location} {failure : LexError} {ts : List Token}

/-- A run over a stream that fails behind its text ends with the failure, or as the run over the
    text does, with an invalid character. -/
theorem UpTo.exists_finishes {lx : Lexer} (h : lx.UpTo goal) (hfails : Failing tail goal failure) :
    ∃ ts p, (lx.withTail tail).Finishes ts (some p) ∧ (p = .lexical failure ∨
      ∃ c loc context, p = .lexical (.invalidCharacter c (some loc) context) ∧
        lx.Finishes ts (some p)) := by
  rcases h.next tail with ⟨t, lx1, hnext, hnext', hlx1⟩ | ⟨c, loc, context, hnext, hnext', -⟩ |
    ⟨-, last, hlast, hfail⟩
  · obtain ⟨ts, p, ⟨lx', hdelivers, hending⟩, hp⟩ := hlx1.exists_finishes hfails
    refine ⟨t :: ts, p, ⟨lx', .cons hnext' hdelivers, hending⟩, ?_⟩
    rcases hp with rfl | ⟨c, loc, context, rfl, lx'', hdelivers', hending'⟩
    · exact .inl rfl
    · exact .inr ⟨c, loc, context, rfl, lx'', .cons hnext hdelivers', hending'⟩
  · exact ⟨[], _, ⟨_, .nil _, hnext'⟩, .inr ⟨c, loc, context, rfl, _, .nil _, hnext⟩⟩
  · obtain ⟨last', hlast'⟩ := hfails last hlast
    have hfailure : (lx.withTail tail).failure = none := h.failure_eq
    refine ⟨[], _, ⟨_, .nil _, ?_⟩, .inl rfl⟩
    rw [answer_next hfailure]
    exact congrArg Prod.fst (hfail _ last' hlast')
termination_by lx.size
decreasing_by exact size_next_lt ‹_›

theorem exists_finishes_fault (text : List Char) {f : Fault} (hf : f.kind.endsReading = true)
    (filename : String) (keepNewline : Bool) :
    ∃ ts p, ((ofText (String.ofList text) filename keepNewline).withTail [.fault f]).Finishes ts
        (some p) ∧ (p = .lexical (readFailure (.behind filename text) f) ∨
      ∃ c loc context, p = .lexical (.invalidCharacter c (some loc) context) ∧
        (ofText (String.ofList text) filename keepNewline).Finishes ts (some p)) := by
  have hupto := upTo_ofText (String.ofList text) filename keepNewline
  rw [String.toList_ofList] at hupto
  exact hupto.exists_finishes (failing_fault hf [] (.behind filename text))

/-- A stream of characters goes on behind its text with the rest of its reads. -/
theorem ofStream_eq_withTail (text : List Char) (tail : List Read) (filename : String)
    (keepNewline : Bool) :
    ofStream ⟨text.map .char ++ tail, []⟩ filename keepNewline =
      (ofText (String.ofList text) filename keepNewline).withTail tail := by
  simp [ofStream, ofText, withTail, Cursor.withTail, Cursor.ofText, Stream.ofText]

/-- The invalid character that a run over a text ends with stands in the text, where it is said to
    stand. -/
theorem Finishes.exists_getElem?_eq {text filename : String} {keepNewline : Bool} {c : Char}
    {loc : Option Location} {context : Option String}
    (h : (ofText text filename keepNewline).Finishes ts
      (some (.lexical (.invalidCharacter c loc context)))) :
    ∃ k, text.toList[k]? = some c ∧ loc = some (.ofOffset filename text.toList k) := by
  have hstart := before_ofText text filename keepNewline
  rcases cuts_cases keepNewline text.toList with
    ⟨ps, hps⟩ | ⟨ps, rest, before, d, context', hps, ho⟩ | ⟨ps, rest, hps, ho⟩
  · have hproblem := (h.unique (hps.finishes .ended (by simp) hstart)).2
    cases hproblem
  · have hproblem := (h.unique (hps.finishes ho (by simp) hstart)).2
    obtain ⟨v, rfl⟩ := ho.eq_append_of_invalid
    have htext : text.toList = sources ps ++ before ++ d :: v := by
      rw [hps.eq_sources_append, List.append_assoc]
    simp only [Front.problem, Option.some.injEq, Problem.lexical.injEq,
      LexError.invalidCharacter.injEq] at hproblem
    obtain ⟨rfl, rfl, -⟩ := hproblem
    refine ⟨(sources ps ++ before).length, ?_, ?_⟩
    · rw [htext, List.getElem?_append_right (Nat.le_refl _), Nat.sub_self]
      rfl
    · rw [htext, Location.ofOffset_append, Location.after_append]
  · have hproblem := (h.unique (hps.finishes ho (by simp) hstart)).2
    cases hproblem

end Lexer

/-! ## §4. Files -/

namespace File

open Charset Utf8

variable {find : String → Entry} {path : String} {settings : Settings} {bytes : List UInt8}

theorem tokenize_of_openLexer {lx : Lexer} (hopen : openLexer find path settings = .ok lx)
    (screened : Bool) :
    tokenize find path settings screened = (lx.collect screened).result := by
  rw [tokenize, hopen]

/-- A file that is there is opened at the beginning of the reads of its content. -/
theorem openLexer_of_charset {cs : Charset} (hfile : find (Path.normal path) = .file bytes)
    (hpath : (Path.normal path).contains '\x00' = false)
    (hnul : settings.encoding.contains '\x00' = false)
    (hname : Charset.ofName settings.encoding = .ok cs) :
    openLexer find path settings = .ok (.ofStream ⟨cs.reads bytes, []⟩ (Path.normal path)
      settings.keepNewline) := by
  have hreads : File.reads find (Path.normal path) settings.encoding = .ok (cs.reads bytes) := by
    rw [File.reads, hfile, hname]
    rfl
  unfold openLexer openCursor
  simp only [hnul, hpath, hreads, Bool.false_eq_true, if_false]
  rfl

section

variable (hfile : find (Path.normal path) = .file bytes)
  (hpath : (Path.normal path).contains '\x00' = false) (hutf8 : settings.encoding = "utf-8")

include hfile hpath hutf8

theorem openLexer_eq :
    openLexer find path settings = .ok (.ofStream ⟨utf8.reads bytes, []⟩ (Path.normal path)
      settings.keepNewline) := by
  have hname : Charset.ofName settings.encoding = .ok utf8 := by
    rw [hutf8]
    decide +kernel
  have hnul : settings.encoding.contains '\x00' = false := by
    rw [hutf8]
    cbv
  exact openLexer_of_charset hfile hpath hnul hname

/-- The file of a text is read like the text. -/
theorem openLexer_of_text {text : String} (htext : bytes = encode text.toList) :
    openLexer find path settings =
      .ok (.ofText text (Path.normal path) settings.keepNewline) := by
  have hreads : utf8.reads bytes = text.toList.map .char := by
    rw [Charset.reads, readsFrom_of_encode [] (by rw [List.nil_append, htext])]
    rfl
  rw [openLexer_eq hfile hpath hutf8, hreads]
  rfl

/-- A file whose decoding breaks off is read like the text in front, and then the reading
    fails. -/
theorem openLexer_of_breaksOff {before : List Char} {f : Fault}
    (hreads : utf8.reads bytes = before.map .char ++ [.fault f]) :
    openLexer find path settings =
      .ok ((Lexer.ofText (String.ofList before) (Path.normal path) settings.keepNewline).withTail
        [.fault f]) := by
  rw [openLexer_eq hfile hpath hutf8, hreads, Lexer.ofStream_eq_withTail]

/-- A file whose decoding breaks off has no tokens: the failure is reported, or an invalid
    character in front of it. -/
theorem tokenize_of_breaksOff {before : List Char} {f : Fault}
    (hreads : utf8.reads bytes = before.map .char ++ [.fault f]) (hf : f.kind = .undecodable)
    (screened : Bool) :
    tokenize find path settings screened =
        .error (.lexical (readFailure (.behind (Path.normal path) before) f)) ∨
      ∃ k c context, before[k]? = some c ∧ tokenize find path settings screened =
        .error (.lexical (.invalidCharacter c (some (.ofOffset (Path.normal path) before k))
          context)) := by
  have hends : f.kind.endsReading = true := by rw [hf]; rfl
  obtain ⟨ts, p, hrun, hp⟩ :=
    Lexer.exists_finishes_fault before hends (Path.normal path) settings.keepNewline
  have hresult : tokenize find path settings screened = .error p := by
    rw [tokenize_of_openLexer (openLexer_of_breaksOff hfile hpath hutf8 hreads), Lexer.Run.result,
      (hrun.collect screened).2]
  rw [hresult]
  rcases hp with rfl | ⟨c, loc, context, rfl, htext⟩
  · exact .inl rfl
  · obtain ⟨k, hk, hloc⟩ := htext.exists_getElem?_eq
    rw [String.toList_ofList] at hk hloc
    cases hloc
    exact .inr ⟨k, c, context, hk, rfl⟩

end

/-- A file in UTF-8 that holds a text has the tokens of the text, or fails like it.  A file that
    holds no text has no tokens: it fails at the block that cannot be decoded, behind everything
    that was delivered, or at an invalid character in what was delivered. -/
theorem tokenize_utf8_file (find : String → Entry) (path : String) (settings : Settings)
    (screened : Bool) (bytes : List UInt8) (hfile : find (Path.normal path) = .file bytes)
    (hpath : (Path.normal path).contains '\x00' = false) (hutf8 : settings.encoding = "utf-8") :
    (∀ text : String, bytes.toByteArray = text.toUTF8 →
      tokenize find path settings screened =
        RpalLex.tokenize text (Path.normal path) settings.keepNewline screened) ∧
    (¬ bytes.toByteArray.IsValidUTF8 →
      ∃ before f, BreaksOff [] [] bytes before f ∧ f.kind = .undecodable ∧
        (tokenize find path settings screened =
            .error (.lexical (readFailure (.behind (Path.normal path) before) f)) ∨
          ∃ k c context, before[k]? = some c ∧ tokenize find path settings screened =
            .error (.lexical (.invalidCharacter c
              (some (.ofOffset (Path.normal path) before k)) context)))) := by
  constructor
  · intro text htext
    rw [tokenize_of_openLexer
      (openLexer_of_text hfile hpath hutf8 (toByteArray_eq_iff.1 htext)), RpalLex.tokenize]
  · intro hinvalid
    rcases reads_cases bytes with ⟨t, ht⟩ | ⟨before, f, hbreaks, hreads⟩
    · exact absurd ⟨t, congrArg List.toByteArray ht⟩ hinvalid
    · have hf := hbreaks.kind_eq
      exact ⟨before, f, hbreaks, hf, tokenize_of_breaksOff hfile hpath hutf8 hreads hf screened⟩

/-- Two files: one ends with a letter of two bytes, the other one in the middle of it. -/
theorem tokenize_utf8_file_lambda :
    let find := fun path : String =>
      if path = "p" then Entry.file [0x78, 0x20, 0xce, 0xbb]
      else if path = "q" then .file [0x78, 0x20, 0xce] else .missing
    find (Path.normal "./p") = .file "x λ".toUTF8.data.toList ∧
    tokenize find "./p" {} true =
      .error (.lexical (.invalidCharacter 'λ' (some ⟨"p", 1, 3⟩) none)) ∧
    ¬ [0x78, 0x20, 0xce].toByteArray.IsValidUTF8 ∧ ∀ ts, tokenize find "q" {} true ≠ .ok ts := by
  intro find
  have hp : Path.normal "./p" = "p" := by decide +kernel
  have hq : Path.normal "q" = "q" := by decide +kernel
  have hinvalid : ¬ [0x78, 0x20, 0xce].toByteArray.IsValidUTF8 := by
    rw [← ByteArray.validateUTF8_eq_true_iff]
    decide +kernel
  obtain ⟨htext, -⟩ := tokenize_utf8_file find "./p" {} true [0x78, 0x20, 0xce, 0xbb]
    (by rw [hp]; rfl) (by rw [hp]; cbv) rfl
  obtain ⟨-, hnone⟩ := tokenize_utf8_file find "q" {} true [0x78, 0x20, 0xce]
    (by rw [hq]; rfl) (by rw [hq]; cbv) rfl
  refine ⟨by decide +kernel, ?_, hinvalid, ?_⟩
  · rw [htext "x λ" (by decide +kernel), hp]
    decide +kernel
  · intro ts
    obtain ⟨before, f, -, -, hfailed | ⟨k, c, context, -, hfailed⟩⟩ := hnone hinvalid
    · rw [hfailed]
      nofun
    · rw [hfailed]
      nofun

end File

end RpalLex
