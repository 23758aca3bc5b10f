import RpalLex.Proofs.Course

/-! # Sharing a lexer

  A lexer over a text is called directly, and any number of iterators are
  made on it and take turns.  What is taken by one is not taken by another,
  and nothing is left out: together they follow the run over the text.

  An iterator ends when it is answered without a token.  The first such
  answer comes when all tokens are taken, and after it every other call gets
  it as well.

  Main statements: `Keeps.concat` (one operation of a sharing session),
  `Keeps.of_sharing` (the whole session) and `sharing_conserves`. -/

namespace RpalLex

namespace Session

variable {s : Shared} {op : LexerOp} {ops : List LexerOp} {id : Nat} {all : List Token}
  {problem : Option Problem}

/-! ## §1. Histories -/

/-- The token that a reply hands out. -/
def tokenHanded : Except Problem Reply → Option Token
  | .ok (.token t) => t
  | _ => none

@[simp] theorem tokenHanded_map_token (answer : Except Problem (Option Token)) :
    tokenHanded (answer.map .token) = tokenOf answer := by
  cases answer with
  | error p => rfl
  | ok t => rfl

@[simp] theorem tokenHanded_map_delivered (answer : Except Problem (Option Token)) :
    tokenHanded (answer.map delivered) = tokenOf answer := by
  rcases answer with p | _ | t
  · rfl
  · rfl
  · rfl

/-- The tokens that an operation takes from the lexer. -/
def LexerOp.taken : LexerOp → Shared → List Token
  | .next, s => (tokenOf s.lexer.next.1).toList
  | .drain, s => (s.lexer.collect false).tokens
  | .advance id, s => (s.iterator id).taken s.lexer
  | _, _ => []

/-- The tokens that the operations take, in their order. -/
def takenAlong : List LexerOp → Shared → List Token
  | [], _ => []
  | op :: ops, s => op.taken s ++ takenAlong ops (op.perform s).2

/-- The tokens that the operations hand out, in their order. -/
def handedAlong (ops : List LexerOp) (s : Shared) : List Token :=
  (play LexerOp.perform ops s).filterMap fun r => tokenHanded r.1

/-- Some operation has the property in the state in which it is performed. -/
def happened (P : LexerOp → Shared → Prop) : List LexerOp → Shared → Prop
  | [], _ => False
  | op :: ops, s => P op s ∨ happened P ops (op.perform s).2

instance decidableHappened {P : LexerOp → Shared → Prop} [∀ op s, Decidable (P op s)] :
    ∀ ops s, Decidable (happened P ops s)
  | [], _ => inferInstanceAs (Decidable False)
  | op :: ops, s =>
    have := decidableHappened (P := P) ops (op.perform s).2
    inferInstanceAs (Decidable (P op s ∨ happened P ops (op.perform s).2))

/-- The iterator was advanced and delivered no token. -/
def Ended (id : Nat) : List LexerOp → Shared → Prop :=
  happened fun op s => op = .advance id ∧ tokenHanded (op.perform s).1 = none

/-- A call was made, directly or by an iterator, and brought no token. -/
def Exhausted : List LexerOp → Shared → Prop :=
  happened fun op s => op.calls = true ∧ tokenHanded (op.perform s).1 = none

instance (id : Nat) (ops : List LexerOp) (s : Shared) : Decidable (Ended id ops s) :=
  decidableHappened ops s

instance (ops : List LexerOp) (s : Shared) : Decidable (Exhausted ops s) := decidableHappened ops s

theorem takenAlong_concat (ops : List LexerOp) (op : LexerOp) (s : Shared) :
    takenAlong (ops ++ [op]) s = takenAlong ops s ++ op.taken (after LexerOp.perform ops s) := by
  induction ops generalizing s with
  | nil => exact List.append_nil _
  | cons op' ops ih =>
    show op'.taken s ++ takenAlong (ops ++ [op]) _ = op'.taken s ++ takenAlong ops _ ++ _
    rw [ih, List.append_assoc]
    rfl

theorem handedAlong_concat (ops : List LexerOp) (op : LexerOp) (s : Shared) :
    handedAlong (ops ++ [op]) s = handedAlong ops s ++
      (tokenHanded (op.perform (after LexerOp.perform ops s)).1).toList := by
  induction ops generalizing s with
  | nil =>
    cases h : tokenHanded (op.perform s).1 with
    | none => simp [handedAlong, play, h]
    | some t => simp [handedAlong, play, h]
  | cons op' ops ih =>
    have hcons : ∀ ops, handedAlong (op' :: ops) s =
        (tokenHanded (op'.perform s).1).toList ++ handedAlong ops (op'.perform s).2 := by
      intro ops
      cases h : tokenHanded (op'.perform s).1 with
      | none => simp [handedAlong, play, h]
      | some t => simp [handedAlong, play, h]
    rw [List.cons_append, hcons, hcons, ih, List.append_assoc]
    rfl

theorem happened_concat {P : LexerOp → Shared → Prop} (ops : List LexerOp) (op : LexerOp)
    (s : Shared) : happened P (ops ++ [op]) s ↔
      happened P ops s ∨ P op (after LexerOp.perform ops s) := by
  induction ops generalizing s with
  | nil => simp [happened]
  | cons op' ops ih =>
    show P op' s ∨ happened P (ops ++ [op]) _ ↔ (P op' s ∨ happened P ops _) ∨ _
    rw [ih, or_assoc]
    rfl

theorem happened_mono {P Q : LexerOp → Shared → Prop} (hPQ : ∀ op s, P op s → Q op s)
    (h : happened P ops s) : happened Q ops s := by
  induction ops generalizing s with
  | nil => exact h
  | cons op ops ih =>
    rcases h with hnow | hlater
    · exact .inl (hPQ op s hnow)
    · exact .inr (ih hlater)

/-- An iterator that ended made a call that brought no token, or it had ended before. -/
theorem exhausted_of_ended (h : Ended id ops s) : Exhausted ops s := by
  refine happened_mono ?_ h
  rintro op s ⟨rfl, hnone⟩
  exact ⟨rfl, hnone⟩

/-! ## §2. One turn of an iterator -/

theorem iterator_advance_of_ne {id' : Nat} (h : id' ≠ id) (s : Shared) :
    ((LexerOp.advance id).perform s).2.iterator id' = s.iterator id' :=
  Shared.iterator_put_of_ne { s with lexer := ((s.iterator id).next s.lexer).2.2 } _ h

/-- An iterator is finished when it delivered no token. -/
theorem phase_advance (hs : (s.iterator id).Sound) :
    (((LexerOp.advance id).perform s).2.iterator id).phase = .finished ↔
      tokenHanded ((LexerOp.advance id).perform s).1 = none := by
  by_cases hfinished : (s.iterator id).phase = .finished
  · rw [Shared.advance_of_finished hfinished, Shared.iterator_put]
    exact ⟨fun _ => rfl, fun _ => hfinished⟩
  · obtain ⟨s', hadvance, -, -, -, hphase⟩ := Shared.advance_of_live hs hfinished
    rw [hadvance, tokenHanded_map_delivered, hphase]
    rcases (s.lexer.pull (s.iterator id).screens).1 with p | _ | t
    · exact ⟨fun _ => rfl, fun _ => rfl⟩
    · exact ⟨fun _ => rfl, fun _ => rfl⟩
    · constructor
      · intro h
        cases h
      · intro h
        cases h

theorem screens_advance (hs : (s.iterator id).Sound) :
    (((LexerOp.advance id).perform s).2.iterator id).screens = (s.iterator id).screens := by
  by_cases hfinished : (s.iterator id).phase = .finished
  · rw [Shared.advance_of_finished hfinished, Shared.iterator_put]
  · obtain ⟨s', hadvance, -, -, hscreens, -⟩ := Shared.advance_of_live hs hfinished
    rw [hadvance, hscreens]

/-- A turn takes what the pull of the iterator takes, and stays on course. -/
theorem onCourse_advance {taken : List Token} (hs : (s.iterator id).Sound)
    (h : s.lexer.OnCourse all problem taken) :
    ((LexerOp.advance id).perform s).2.lexer.OnCourse all problem
        (taken ++ (LexerOp.advance id).taken s) ∧
      ((s.iterator id).phase ≠ .finished →
        tokenHanded ((LexerOp.advance id).perform s).1 = none →
        taken ++ (LexerOp.advance id).taken s = all) := by
  by_cases hfinished : (s.iterator id).phase = .finished
  · refine ⟨?_, fun hlive => absurd hfinished hlive⟩
    rw [Shared.advance_of_finished hfinished, LexerOp.taken,
      TokenIterator.taken_of_finished hfinished, List.append_nil]
    exact h
  · obtain ⟨s', hadvance, hlexer, -⟩ := Shared.advance_of_live hs hfinished
    obtain ⟨hcourse, hall⟩ := h.pull (s.iterator id).screens
    rw [hadvance, hlexer, tokenHanded_map_delivered, LexerOp.taken,
      TokenIterator.taken_of_live hs hfinished]
    exact ⟨hcourse, fun _ => hall⟩

/-! ## §3. Sharing sessions -/

/-- The number under which an operation makes an iterator. -/
def LexerOp.made? : LexerOp → Option Nat
  | .iterate id _ | .screen id => some id
  | _ => none

/-- The numbers under which iterators were made. -/
def made (ops : List LexerOp) : List Nat := ops.filterMap LexerOp.made?

/-- After the operations the lexer may be called, an iterator may be made under a new number, and
    one that was made may be advanced. -/
def LexerOp.Fits : LexerOp → List LexerOp → Prop
  | .next, _ => True
  | .iterate id _, ops | .screen id, ops => id ∉ made ops
  | .advance id, ops => id ∈ made ops
  | _, _ => False

instance (op : LexerOp) (ops : List LexerOp) : Decidable (op.Fits ops) :=
  match op with
  | .next => inferInstanceAs (Decidable True)
  | .iterate id _ | .screen id => inferInstanceAs (Decidable (id ∉ made ops))
  | .advance id => inferInstanceAs (Decidable (id ∈ made ops))
  | .close | .enter | .leave | .drain | .stop _ | .cursor _ => inferInstanceAs (Decidable False)

/-- A session that shares the lexer: calls, new iterators, and iterators that take turns. -/
inductive Sharing : List LexerOp → Prop where
  | nil : Sharing []
  | concat {ops : List LexerOp} {op : LexerOp} : Sharing ops → op.Fits ops → Sharing (ops ++ [op])

/-- The iterator was made to screen. -/
def MadeToScreen (id : Nat) (ops : List LexerOp) : Prop :=
  .iterate id true ∈ ops ∨ .screen id ∈ ops

/-- What holds after every sharing session: the tokens taken are the first ones of the run, all of
    them once a call has brought none, and an iterator is finished unless it was made and has only
    delivered tokens. -/
structure Keeps (all : List Token) (problem : Option Problem) (fresh : Shared)
    (ops : List LexerOp) : Prop where
  sound : (after LexerOp.perform ops fresh).Sound
  onCourse : (after LexerOp.perform ops fresh).lexer.OnCourse all problem (takenAlong ops fresh)
  taken_all : Exhausted ops fresh → takenAlong ops fresh = all
  made_of_ended : ∀ id, Ended id ops fresh → id ∈ made ops
  finished_iff : ∀ id, ((after LexerOp.perform ops fresh).iterator id).phase = .finished ↔
    id ∉ made ops ∨ Ended id ops fresh
  screens : ∀ id, ((after LexerOp.perform ops fresh).iterator id).screens = true →
    MadeToScreen id ops

theorem made_concat (ops : List LexerOp) (op : LexerOp) :
    made (ops ++ [op]) = made ops ++ op.made?.toList := by
  unfold made
  rw [List.filterMap_append]
  cases op <;> rfl

theorem ended_concat (ops : List LexerOp) (op : LexerOp) (s : Shared) :
    Ended id (ops ++ [op]) s ↔ Ended id ops s ∨
      op = .advance id ∧ tokenHanded (op.perform (after LexerOp.perform ops s)).1 = none :=
  happened_concat ops op s

/-- Only an iterator that is advanced can end. -/
theorem ended_concat_of_ne (ops : List LexerOp) {op : LexerOp} (s : Shared)
    (hne : op ≠ .advance id) : Ended id (ops ++ [op]) s ↔ Ended id ops s := by
  rw [ended_concat]
  constructor
  · rintro (hbefore | ⟨heq, -⟩)
    · exact hbefore
    · exact absurd heq hne
  · exact .inl

theorem MadeToScreen.concat (h : MadeToScreen id ops) (op : LexerOp) :
    MadeToScreen id (ops ++ [op]) :=
  h.imp (List.mem_append_left [op]) (List.mem_append_left [op])

/-- The operation does nothing but to make an iterator under a number. -/
structure LexerOp.Makes (op : LexerOp) (id : Nat) (it : TokenIterator) : Prop where
  perform_eq : ∀ s, op.perform s = (.ok .done, s.make id it)
  made_eq : op.made? = some id
  calls_eq : op.calls = false
  taken_eq : ∀ s, op.taken s = []
  sound : it.Sound
  phase_eq : it.phase = .fresh
  screens : it.screens = true → op = .iterate id true ∨ op = .screen id

theorem makes_iterate (id : Nat) (screened : Bool) :
    (LexerOp.iterate id screened).Makes id (.direct { screened }) where
  perform_eq := fun _ => rfl
  made_eq := rfl
  calls_eq := rfl
  taken_eq := fun _ => rfl
  sound := trivial
  phase_eq := rfl
  screens := by
    rintro (rfl : screened = true)
    exact .inl rfl

theorem makes_screen (id : Nat) : (LexerOp.screen id).Makes id (.screening {}) where
  perform_eq := fun _ => rfl
  made_eq := rfl
  calls_eq := rfl
  taken_eq := fun _ => rfl
  sound := ⟨rfl, fun _ => rfl⟩
  phase_eq := rfl
  screens := fun _ => .inr rfl

theorem LexerOp.Fits.cases (h : op.Fits ops) :
    op = .next ∨ (∃ id it, op.Makes id it ∧ id ∉ made ops) ∨
      ∃ id, op = .advance id ∧ id ∈ made ops := by
  cases op with
  | next => exact .inl rfl
  | iterate id screened => exact .inr (.inl ⟨id, _, makes_iterate id screened, h⟩)
  | screen id => exact .inr (.inl ⟨id, _, makes_screen id, h⟩)
  | advance id => exact .inr (.inr ⟨id, rfl, h⟩)
  | close => exact h.elim
  | enter => exact h.elim
  | leave => exact h.elim
  | drain => exact h.elim
  | stop id => exact h.elim
  | cursor cursorOp => exact h.elim

namespace Keeps

variable {fresh : Shared} {it : TokenIterator}

theorem nil (h : s.lexer.Finishes all problem) (hover : s.lexer.OverText)
    (hcount : s.lexer.tokenCount = 0) (hnone : s.iterators = []) : Keeps all problem s [] := by
  have hiterator : ∀ id, s.iterator id = .direct ⟨false, .finished⟩ := by
    intro id
    rw [Shared.iterator, hnone]
    rfl
  refine ⟨?_, ⟨hover, hcount, all, rfl, h⟩, False.elim, ?_, ?_, ?_⟩
  · intro id
    rw [after_nil, hiterator]
    trivial
  · intro id hended
    exact hended.elim
  · intro id
    rw [after_nil, hiterator]
    exact ⟨fun _ => .inl List.not_mem_nil, fun _ => rfl⟩
  · intro id hscreens
    rw [after_nil, hiterator] at hscreens
    cases hscreens

/-- A call that brings no token comes when all are taken. -/
theorem taken_all_concat (h : Keeps all problem fresh ops)
    (hcourse : (after LexerOp.perform (ops ++ [op]) fresh).lexer.OnCourse all problem
      (takenAlong (ops ++ [op]) fresh))
    (hlast : op.calls = true → tokenHanded (op.perform (after LexerOp.perform ops fresh)).1 = none →
      takenAlong (ops ++ [op]) fresh = all) (hex : Exhausted (ops ++ [op]) fresh) :
    takenAlong (ops ++ [op]) fresh = all := by
  rcases (happened_concat ops op fresh).1 hex with hbefore | ⟨hcalls, hnone⟩
  · rw [takenAlong_concat, h.taken_all hbefore] at hcourse ⊢
    rw [hcourse.eq_nil_of_all, List.append_nil]
  · exact hlast hcalls hnone

theorem call (h : Keeps all problem fresh ops) : Keeps all problem fresh (ops ++ [.next]) := by
  have hended : ∀ id, Ended id (ops ++ [.next]) fresh ↔ Ended id ops fresh := by
    intro id
    apply ended_concat_of_ne
    simp
  have hmade : made (ops ++ [.next]) = made ops := by
    rw [made_concat]
    exact List.append_nil _
  have hcourse : (after LexerOp.perform (ops ++ [.next]) fresh).lexer.OnCourse all problem
      (takenAlong (ops ++ [.next]) fresh) := by
    rw [after_concat, takenAlong_concat]
    exact h.onCourse.next
  refine ⟨?_, hcourse, h.taken_all_concat hcourse ?_, ?_, ?_, ?_⟩
  · rw [after_concat]
    exact h.sound.perform .next
  · intro _ hnone
    have hreply : tokenOf (after LexerOp.perform ops fresh).lexer.next.1 = none := by
      rw [← hnone]
      exact (tokenHanded_map_token _).symm
    rw [takenAlong_concat, (h.onCourse.all_taken hreply).1, LexerOp.taken, hreply]
    exact List.append_nil _
  · intro id hid
    rw [hmade]
    exact h.made_of_ended id ((hended id).1 hid)
  · intro id
    rw [after_concat, hmade, hended]
    exact h.finished_iff id
  · intro id hscreens
    rw [after_concat] at hscreens
    exact (h.screens id hscreens).concat .next

/-- A new iterator takes nothing, and nothing is released under a number that was free. -/
theorem make (h : Keeps all problem fresh ops) (hop : op.Makes id it) (hid : id ∉ made ops) :
    Keeps all problem fresh (ops ++ [op]) := by
  have hended : ∀ id', Ended id' (ops ++ [op]) fresh ↔ Ended id' ops fresh := by
    intro id'
    apply ended_concat_of_ne
    rintro rfl
    exact absurd hop.calls_eq (by simp [LexerOp.calls])
  have hmade : made (ops ++ [op]) = made ops ++ [id] := by
    rw [made_concat, hop.made_eq]
    rfl
  have hfree : ((after LexerOp.perform ops fresh).iterator id).phase = .finished :=
    (h.finished_iff id).2 (.inl hid)
  have hlexer : (after LexerOp.perform (ops ++ [op]) fresh).lexer =
      (after LexerOp.perform ops fresh).lexer := by
    rw [after_concat, hop.perform_eq]
    show ((Shared.iterator _ id).close _).2 = _
    rw [((h.sound id).close _).1, hfree]
    rfl
  have htaken : takenAlong (ops ++ [op]) fresh = takenAlong ops fresh := by
    rw [takenAlong_concat, hop.taken_eq, List.append_nil]
  have hiterator : ∀ id', (after LexerOp.perform (ops ++ [op]) fresh).iterator id' =
      if id' = id then it else (after LexerOp.perform ops fresh).iterator id' := by
    intro id'
    rw [after_concat, hop.perform_eq, Shared.iterator_make_eq]
  have hcourse : (after LexerOp.perform (ops ++ [op]) fresh).lexer.OnCourse all problem
      (takenAlong (ops ++ [op]) fresh) := by
    rw [hlexer, htaken]
    exact h.onCourse
  refine ⟨?_, hcourse, h.taken_all_concat hcourse ?_, ?_, ?_, ?_⟩
  · rw [after_concat]
    exact h.sound.perform op
  · intro hcalls _
    rw [hop.calls_eq] at hcalls
    cases hcalls
  · intro id' hid'
    rw [hmade]
    exact List.mem_append_left [id] (h.made_of_ended id' ((hended id').1 hid'))
  · intro id'
    rw [hiterator, hmade, hended]
    by_cases heq : id' = id
    · subst heq
      -- Nothing was under the number, so nothing ended there.
      have hnot : ¬ Ended id' ops fresh := fun hended' => hid (h.made_of_ended id' hended')
      simp [hop.phase_eq, hnot]
    · simp [heq, h.finished_iff id']
  · intro id' hscreens
    rw [hiterator] at hscreens
    by_cases heq : id' = id
    · subst heq
      rw [if_pos rfl] at hscreens
      rcases hop.screens hscreens with rfl | rfl
      · exact .inl (by simp)
      · exact .inr (by simp)
    · rw [if_neg heq] at hscreens
      exact (h.screens id' hscreens).concat op

/-- After a turn an iterator is finished if it was before or delivered no token. -/
theorem finished_iff_advance (h : Keeps all problem fresh ops) (hid : id ∈ made ops) (id' : Nat) :
    (((LexerOp.advance id).perform (after LexerOp.perform ops fresh)).2.iterator id').phase =
        .finished ↔ id' ∉ made ops ∨ Ended id' (ops ++ [.advance id]) fresh := by
  by_cases heq : id' = id
  · subst heq
    rw [phase_advance (h.sound id'), ended_concat]
    constructor
    · intro hnone
      exact .inr (.inr ⟨rfl, hnone⟩)
    · rintro (hnot | hended | ⟨-, hnone⟩)
      · exact absurd hid hnot
      · -- An iterator that has ended goes on to report its end.
        have hfinished := (h.finished_iff id').2 (.inr hended)
        rw [Shared.advance_of_finished hfinished]
        rfl
      · exact hnone
  · have hne : LexerOp.advance id ≠ .advance id' := by
      intro hsame
      cases hsame
      exact heq rfl
    rw [iterator_advance_of_ne heq, ended_concat_of_ne ops fresh hne]
    exact h.finished_iff id'

/-- An iterator takes what its pull takes; it finishes when it delivers no token. -/
theorem advance (h : Keeps all problem fresh ops) (hid : id ∈ made ops) :
    Keeps all problem fresh (ops ++ [.advance id]) := by
  have hsound := h.sound id
  have hmade : made (ops ++ [.advance id]) = made ops := by
    rw [made_concat]
    exact List.append_nil _
  obtain ⟨hturn, hall⟩ := onCourse_advance hsound h.onCourse
  have hcourse : (after LexerOp.perform (ops ++ [.advance id]) fresh).lexer.OnCourse all problem
      (takenAlong (ops ++ [.advance id]) fresh) := by
    rw [after_concat, takenAlong_concat]
    exact hturn
  refine ⟨?_, hcourse, h.taken_all_concat hcourse ?_, ?_, ?_, ?_⟩
  · rw [after_concat]
    exact h.sound.perform (.advance id)
  · intro _ hnone
    rw [takenAlong_concat]
    by_cases hfinished : ((after LexerOp.perform ops fresh).iterator id).phase = .finished
    · -- It had ended before, and so had the run.
      have hended : Ended id ops fresh :=
        ((h.finished_iff id).1 hfinished).resolve_left (not_not_intro hid)
      rw [h.taken_all (exhausted_of_ended hended), LexerOp.taken,
        TokenIterator.taken_of_finished hfinished, List.append_nil]
    · exact hall hfinished hnone
  · intro id' hended
    rw [hmade]
    rcases (ended_concat ops _ fresh).1 hended with hbefore | ⟨hsame, -⟩
    · exact h.made_of_ended id' hbefore
    · cases hsame
      exact hid
  · intro id'
    rw [hmade, after_concat]
    exact h.finished_iff_advance hid id'
  · intro id' hscreens
    rw [after_concat] at hscreens
    by_cases heq : id' = id
    · subst heq
      rw [screens_advance hsound] at hscreens
      exact (h.screens id' hscreens).concat _
    · rw [iterator_advance_of_ne heq] at hscreens
      exact (h.screens id' hscreens).concat _

theorem concat (h : Keeps all problem fresh ops) (hop : op.Fits ops) :
    Keeps all problem fresh (ops ++ [op]) := by
  rcases hop.cases with rfl | ⟨id, it, hmakes, hid⟩ | ⟨id, rfl, hid⟩
  · exact h.call
  · exact h.make hmakes hid
  · exact h.advance hid

theorem of_sharing (h : Keeps all problem fresh []) (hops : Sharing ops) :
    Keeps all problem fresh ops := by
  induction hops with
  | nil => exact h
  | concat _ hfits ih => exact ih.concat hfits

end Keeps

/-! ## §4. What sharing conserves -/

/-- An operation hands out the last token that it takes; the others were skipped by an iterator that
    screens. -/
theorem exists_skipped (hs : s.Sound) (hop : op.Fits ops) :
    ∃ skipped, op.taken s = skipped ++ (tokenHanded (op.perform s).1).toList ∧
      (∀ t ∈ skipped, t.isDiscardable = true) ∧
      (skipped ≠ [] → ∃ id, op = .advance id ∧ (s.iterator id).screens = true) := by
  rcases hop.cases with rfl | ⟨id, it, hmakes, -⟩ | ⟨id, rfl, -⟩
  · refine ⟨[], ?_, by simp, by simp⟩
    show _ = (tokenHanded (s.lexer.next.1.map .token)).toList
    rw [tokenHanded_map_token]
    rfl
  · refine ⟨[], ?_, by simp, by simp⟩
    rw [hmakes.taken_eq, hmakes.perform_eq]
    rfl
  · by_cases hfinished : (s.iterator id).phase = .finished
    · refine ⟨[], ?_, by simp, by simp⟩
      rw [Shared.advance_of_finished hfinished]
      exact TokenIterator.taken_of_finished hfinished s.lexer
    · obtain ⟨s', hadvance, -⟩ := Shared.advance_of_live (hs id) hfinished
      obtain ⟨skipped, lx', -, hskipped, hanswer, hpulled, -⟩ :=
        Lexer.exists_pulled (s.iterator id).screens s.lexer
      -- The tokens that the pull did not pass.
      have hdropped : ∀ t ∈ skipped,
          (s.iterator id).screens = true ∧ t.isDiscardable = true := by
        intro t ht
        have hnot := List.filter_eq_nil_iff.1 hskipped t ht
        simpa using hnot
      refine ⟨skipped, ?_, fun t ht => (hdropped t ht).2, ?_⟩
      · rw [hadvance, tokenHanded_map_delivered, hanswer]
        exact (TokenIterator.taken_of_live (hs id) hfinished s.lexer).trans hpulled
      · intro hne
        obtain ⟨t, ht⟩ := List.exists_mem_of_ne_nil skipped hne
        exact ⟨id, rfl, (hdropped t ht).1⟩

theorem screen_eq_nil {ts : List Token} (h : ∀ t ∈ ts, t.isDiscardable = true) :
    Token.screen ts = [] := by
  apply List.filter_eq_nil_iff.2
  intro t ht
  simp [h t ht]

/-- Of the tokens taken, those handed out come in their order, and only discardable ones are
    missing. -/
theorem Keeps.handedAlong {fresh : Shared} (h : Keeps all problem fresh []) (hops : Sharing ops) :
    (Session.handedAlong ops fresh).Sublist (takenAlong ops fresh) ∧
      Token.screen (Session.handedAlong ops fresh) = Token.screen (takenAlong ops fresh) := by
  induction hops with
  | nil => exact ⟨.slnil, rfl⟩
  | @concat ops op hops hfits ih =>
    obtain ⟨hsub, hscreen⟩ := ih
    obtain ⟨skipped, hchunk, hdiscardable, -⟩ := exists_skipped (h.of_sharing hops).sound hfits
    rw [handedAlong_concat, takenAlong_concat, hchunk]
    constructor
    · exact hsub.append (List.sublist_append_right skipped _)
    · simp only [Token.screen, List.filter_append] at hscreen ⊢
      have hskipped := screen_eq_nil hdiscardable
      rw [Token.screen] at hskipped
      rw [hscreen, hskipped, List.nil_append]

/-- Let a lexer over a text be shared.  At every point the tokens taken so far are as many as were
    counted, the first ones of the run over the text.  An operation hands out the last token that
    it takes; the others are discardable and were skipped by an iterator made to screen, so all the
    other tokens were handed out, once each and in their order.  When a call has brought no token,
    every later call and every iterator that has not ended, started or not, is answered like the
    end of the run; and an iterator that has ended reports only that. -/
theorem sharing_conserves (text filename : String) (keepNewline : Bool) :
    let fresh : Shared := ⟨.ofText text filename keepNewline, []⟩
    ∃ all problem, fresh.lexer.Finishes all problem ∧ ∀ ops, Sharing ops →
      let s := after LexerOp.perform ops fresh
      takenAlong ops fresh = all.take s.lexer.tokenCount ∧ s.lexer.tokenCount ≤ all.length ∧
      (∀ op : LexerOp, op.Fits ops →
        ∃ skipped, op.taken s = skipped ++ (tokenHanded (op.perform s).1).toList ∧
          (∀ t ∈ skipped, t.isDiscardable = true) ∧
          (skipped ≠ [] → ∃ id, op = .advance id ∧ MadeToScreen id ops)) ∧
      (handedAlong ops fresh).Sublist (takenAlong ops fresh) ∧
      Token.screen (handedAlong ops fresh) = Token.screen (takenAlong ops fresh) ∧
      (Exhausted ops fresh → s.lexer.tokenCount = all.length ∧
        (LexerOp.next.perform s).1 = (Lexer.ending problem).map .token ∧
        ∀ id ∈ made ops, ¬ Ended id ops fresh →
          ((LexerOp.advance id).perform s).1 = (Lexer.ending problem).map delivered) ∧
      ∀ id, Ended id ops fresh → ((LexerOp.advance id).perform s).1 = .ok .ended := by
  intro fresh
  obtain ⟨all, problem, hfinishes⟩ := RpalLex.exists_finishes text filename keepNewline
  refine ⟨all, problem, hfinishes, ?_⟩
  have hstart : Keeps all problem fresh [] :=
    .nil hfinishes (Lexer.overText_ofText text filename keepNewline) rfl rfl
  intro ops hops s
  have hkeeps := hstart.of_sharing hops
  obtain ⟨htaken, hle⟩ := hkeeps.onCourse.taken_eq_take
  obtain ⟨hsub, hscreen⟩ := hstart.handedAlong hops
  refine ⟨htaken, hle, ?_, hsub, hscreen, ?_, ?_⟩
  · intro op hop
    obtain ⟨skipped, hchunk, hdiscardable, hscreens⟩ := exists_skipped hkeeps.sound hop
    refine ⟨skipped, hchunk, hdiscardable, ?_⟩
    intro hne
    obtain ⟨id, rfl, hscreen⟩ := hscreens hne
    exact ⟨id, rfl, hkeeps.screens id hscreen⟩
  · intro hex
    have hcourse := hkeeps.onCourse
    rw [hkeeps.taken_all hex] at hcourse
    obtain ⟨hnext, hpull⟩ := hcourse.answers_of_all
    refine ⟨hcourse.tokenCount_eq, ?_, ?_⟩
    · show s.lexer.next.1.map Reply.token = _
      rw [hnext]
    · intro id hid hlive
      have hphase : (s.iterator id).phase ≠ .finished := by
        rw [ne_eq, hkeeps.finished_iff id, not_or]
        exact ⟨not_not_intro hid, hlive⟩
      obtain ⟨s', hadvance, -⟩ := Shared.advance_of_live (hkeeps.sound id) hphase
      rw [hadvance, hpull]
  · intro id hended
    rw [Shared.advance_of_finished ((hkeeps.finished_iff id).2 (.inr hended))]

/-- An iterator that does not screen, one that does and a direct call take turns; the call comes to
    the end. -/
theorem sharing_conserves_turns :
    let fresh : Shared := ⟨.ofText "a b" "f" false, []⟩
    let ops := [LexerOp.iterate 0 false, .screen 1, .advance 0, .advance 1, .next]
    let s := after LexerOp.perform ops fresh
    Sharing ops ∧ Exhausted ops fresh ∧
    handedAlong ops fresh =
      [⟨.identifier, "a", ⟨"f", 1, 1⟩⟩, ⟨.identifier, "b", ⟨"f", 1, 3⟩⟩] ∧
    Token.screen (handedAlong ops fresh) = Token.screen (takenAlong ops fresh) ∧
    ∃ all problem, fresh.lexer.Finishes all problem ∧ s.lexer.tokenCount = all.length ∧
      ((LexerOp.advance 0).perform s).1 = (Lexer.ending problem).map delivered ∧
      ((LexerOp.advance 1).perform s).1 = (Lexer.ending problem).map delivered := by
  intro fresh ops s
  have h1 : Sharing [.iterate 0 false] := Sharing.nil.concat (by decide)
  have h2 : Sharing [.iterate 0 false, .screen 1] := h1.concat (by decide)
  have h3 : Sharing [.iterate 0 false, .screen 1, .advance 0] := h2.concat (by decide)
  have h4 : Sharing [.iterate 0 false, .screen 1, .advance 0, .advance 1] := h3.concat (by decide)
  have hops : Sharing ops := h4.concat (by decide)
  have hexhausted : Exhausted ops fresh := by decide +kernel
  obtain ⟨all, problem, hfinishes, hall⟩ := sharing_conserves "a b" "f" false
  obtain ⟨-, -, -, -, hscreen, hend, -⟩ := hall ops hops
  obtain ⟨hcount, -, hadvance⟩ := hend hexhausted
  refine ⟨hops, hexhausted, by decide +kernel, hscreen, all, problem, hfinishes, hcount, ?_, ?_⟩
  · exact hadvance 0 (by decide) (by decide +kernel)
  · exact hadvance 1 (by decide) (by decide +kernel)

end Session

end RpalLex
