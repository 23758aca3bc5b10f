import RpalLex.Proofs.Calls
import RpalLex.Session

/-! # Sessions with iterators

  The state of a session is followed operation by operation (§1).  On a lexer
  with iterators, every operation leaves the iterators alone that it does not
  name (§2).

  Of an iterator it matters only where it is in its life and whether it
  screens: a screening iterator advances like a direct one that skips the
  discardable tokens itself, as long as it is as far as the iterator beneath
  it (`Screening.skip_eq_pull`).  All iterators that a session makes are
  (§3, §4).

  What an operation does to the lexer is therefore told apart in a few cases
  (`Effect`, §5), and nobody opens the iterators any more.

  Main statements: `getElem?_play` (what an operation of a session does),
  `TokenIterator.next_of_live` (advancing is pulling), `Shared.Sound.after`
  and `Shared.Sound.effect`. -/

namespace RpalLex

namespace Session

/-! ## §1. The state after operations -/

variable {σ ω : Type} {perform : ω → σ → Outcome σ Reply}

/-- The state after operations. -/
def after (perform : ω → σ → Outcome σ Reply) : List ω → σ → σ
  | [], s => s
  | op :: ops, s => after perform ops (perform op s).2

@[simp] theorem after_nil (s : σ) : after perform [] s = s := rfl

@[simp] theorem after_cons (op : ω) (ops : List ω) (s : σ) :
    after perform (op :: ops) s = after perform ops (perform op s).2 := rfl

theorem after_append (ops ops' : List ω) (s : σ) :
    after perform (ops ++ ops') s = after perform ops' (after perform ops s) := by
  induction ops generalizing s with
  | nil => rfl
  | cons op ops ih => exact ih (perform op s).2

theorem after_concat (ops : List ω) (op : ω) (s : σ) :
    after perform (ops ++ [op]) s = (perform op (after perform ops s)).2 :=
  after_append ops [op] s

/-- Every operation is performed in the state that the ones before it leave. -/
theorem getElem?_play (ops : List ω) (s : σ) (i : Nat) :
    (play perform ops s)[i]? = ops[i]?.map fun op => perform op (after perform (ops.take i) s) := by
  induction ops generalizing s i with
  | nil => rfl
  | cons op ops ih =>
    cases i with
    | zero => rfl
    | succ i => exact ih (perform op s).2 i

/-- What every operation preserves holds after all of them. -/
theorem after_preserves {P : σ → Prop} (hstep : ∀ op s, P s → P (perform op s).2)
    (ops : List ω) {s : σ} (h : P s) : P (after perform ops s) := by
  induction ops generalizing s with
  | nil => exact h
  | cons op ops ih => exact ih (hstep op s h)

end Session

/-! ## §2. Iterators under numbers -/

namespace Session.Shared

theorem lookup_filter_ne {β : Type} {id id' : Nat} (h : id' ≠ id) (xs : List (Nat × β)) :
    (xs.filter (·.1 != id)).lookup id' = xs.lookup id' := by
  induction xs with
  | nil => rfl
  | cons x xs ih =>
    obtain ⟨k, v⟩ := x
    by_cases hk : k = id
    · subst hk
      have hne : (id' == k) = false := by simpa using h
      simpa [List.lookup_cons, hne] using ih
    · have hkept : (k != id) = true := by simpa using hk
      rw [List.filter_cons, if_pos hkept, List.lookup_cons, List.lookup_cons, ih]

/-- The iterators under other numbers stay. -/
theorem iterator_put_of_ne (s : Shared) (it : TokenIterator) {id id' : Nat} (h : id' ≠ id) :
    (s.put id it).iterator id' = s.iterator id' := by
  have hne : (id' == id) = false := by simpa using h
  unfold put iterator
  rw [List.lookup_cons, hne, lookup_filter_ne h]

theorem iterator_put_eq (s : Shared) (it : TokenIterator) (id id' : Nat) :
    (s.put id it).iterator id' = if id' = id then it else s.iterator id' := by
  by_cases h : id' = id
  · subst h
    rw [if_pos rfl, iterator_put]
  · rw [if_neg h, iterator_put_of_ne s it h]

theorem iterator_make_eq (s : Shared) (it : TokenIterator) (id id' : Nat) :
    (s.make id it).iterator id' = if id' = id then it else s.iterator id' :=
  iterator_put_eq { s with lexer := ((s.iterator id).close s.lexer).2 } it id id'

end Session.Shared

/-! ## §3. Iterators -/

namespace TokenIterator

variable {it : TokenIterator} {lx : Lexer}

/-- Where an iterator is in its life. -/
def phase : TokenIterator → Phase
  | direct it => it.phase
  | screening it => it.phase

/-- Are discardable tokens left out? -/
def screens : TokenIterator → Bool
  | direct it => it.screened
  | screening _ => true

/-- A screening iterator that is not finished sits on one that delivers everything and is as far
    as itself. -/
def Sound : TokenIterator → Prop
  | direct _ => True
  | screening it => it.inner.screened = false ∧ (it.phase ≠ .finished → it.inner.phase = it.phase)

theorem Direct.next_of_finished {it : Direct} (h : it.phase = .finished) (lx : Lexer) :
    it.next lx = (.ok none, it, lx) := by
  simp [Direct.next, h]

theorem Direct.next_of_live {it : Direct} (h : it.phase ≠ .finished) (lx : Lexer) :
    it.next lx = ((lx.pull it.screened).1, { it with phase := .after (lx.pull it.screened).1 },
      (lx.pull it.screened).2) := by
  unfold Direct.next
  split
  · next hfinished => exact absurd hfinished h
  · rfl

theorem Direct.next_of_unscreened {it : Direct} (hs : it.screened = false)
    (h : it.phase ≠ .finished) (lx : Lexer) :
    it.next lx = ((lx.pull false).1, { it with phase := .after (lx.pull false).1 },
      (lx.pull false).2) := by
  rw [next_of_live h, hs]

theorem Screening.skip_eq (inner : Direct) (lx : Lexer) :
    skip inner lx = match inner.next lx with
      | (.ok (some t), inner', lx') =>
        if t.isDiscardable then skip inner' lx' else (.ok (some t), inner', lx')
      | (.ok none, inner', lx') => (.ok none, inner', lx')
      | (.error p, inner', lx') => (.error p, inner', lx') := by
  rw [skip]
  split <;> simp_all

/-- Skipping above an iterator that delivers everything is skipping while pulling. -/
theorem Screening.skip_eq_pull {inner : Direct} (hs : inner.screened = false)
    (hp : inner.phase ≠ .finished) (lx : Lexer) :
    skip inner lx = ((lx.pull true).1, { inner with phase := .after (lx.pull true).1 },
      (lx.pull true).2) := by
  fun_induction Lexer.pull true lx generalizing inner with
  | case1 lx t lx' hnext hskip ih =>
    -- The iterator beneath delivers the token, and it is skipped above.
    have hpull : lx.pull false = (.ok (some t), lx') := Lexer.pull_of_token hnext rfl
    have hdiscard : t.isDiscardable = true := by simpa using hskip
    rw [skip_eq, Direct.next_of_unscreened hs hp, hpull]
    simp only [hdiscard, if_true]
    exact ih hs (by simp [Phase.after])
  | case2 lx t lx' hnext hkeep =>
    have hpull : lx.pull false = (.ok (some t), lx') := Lexer.pull_of_token hnext rfl
    have hdiscard : t.isDiscardable = false := by simpa using hkeep
    rw [skip_eq, Direct.next_of_unscreened hs hp, hpull]
    simp [hdiscard]
  | case3 lx lx' hnext =>
    have hpull : lx.pull false = (.ok none, lx'.close) := by rw [Lexer.pull_eq, hnext]
    rw [skip_eq, Direct.next_of_unscreened hs hp, hpull]
  | case4 lx p lx' hnext =>
    have hpull : lx.pull false = (.error p, lx'.close) := by rw [Lexer.pull_eq, hnext]
    rw [skip_eq, Direct.next_of_unscreened hs hp, hpull]

/-- An iterator that is finished only reports its end. -/
theorem next_of_finished (h : it.phase = .finished) (lx : Lexer) :
    it.next lx = (.ok none, it, lx) := by
  cases it with
  | direct it =>
    have hnext : it.next lx = (.ok none, it, lx) := Direct.next_of_finished h lx
    rw [next, hnext]
  | screening it =>
    have hphase : it.phase = .finished := h
    have hnext : it.next lx = (.ok none, it, lx) := by simp [Screening.next, hphase]
    rw [next, hnext]

/-- An iterator that is not finished pulls. -/
theorem next_of_live (hs : it.Sound) (h : it.phase ≠ .finished) (lx : Lexer) :
    ∃ it' : TokenIterator, it.next lx = ((lx.pull it.screens).1, it', (lx.pull it.screens).2) ∧
      it'.Sound ∧ it'.screens = it.screens ∧ it'.phase = .after (lx.pull it.screens).1 := by
  cases it with
  | direct it =>
    have hlive : it.phase ≠ .finished := h
    have hnext := Direct.next_of_live hlive lx
    refine ⟨direct { it with phase := .after (lx.pull it.screened).1 }, ?_, trivial, rfl, rfl⟩
    rw [next, hnext]
    rfl
  | screening it =>
    obtain ⟨hscreened, hphase⟩ := hs
    have hinner : it.inner.phase ≠ .finished := by rw [hphase h]; exact h
    have hskip := Screening.skip_eq_pull hscreened hinner lx
    refine ⟨screening ⟨{ it.inner with phase := .after (lx.pull true).1 },
      .after (lx.pull true).1⟩, ?_, ⟨hscreened, fun _ => rfl⟩, rfl, rfl⟩
    have hlive : it.phase ≠ .finished := h
    have hnext : it.next lx = ((lx.pull true).1,
        ⟨{ it.inner with phase := .after (lx.pull true).1 }, .after (lx.pull true).1⟩,
        (lx.pull true).2) := by
      unfold Screening.next
      split
      · next hfinished => exact absurd hfinished hlive
      · rw [hskip]
    rw [next, hnext]
    rfl

theorem Sound.next (hs : it.Sound) (lx : Lexer) : (it.next lx).2.1.Sound := by
  by_cases h : it.phase = .finished
  · rw [next_of_finished h]
    exact hs
  · obtain ⟨it', hnext, hsound, -, -⟩ := next_of_live hs h lx
    rw [hnext]
    exact hsound

/-- Only an iterator that is suspended releases the stream when it is closed. -/
theorem Sound.close (hs : it.Sound) (lx : Lexer) :
    (it.close lx).2 = (if it.phase = .suspended then lx.close else lx) ∧
      (it.close lx).1.Sound ∧ (it.close lx).1.screens = it.screens ∧
      (it.close lx).1.phase = .finished := by
  cases it with
  | direct it => exact ⟨rfl, trivial, rfl, rfl⟩
  | screening it =>
    obtain ⟨hscreened, hphase⟩ := hs
    by_cases h : it.phase = .suspended
    · have hinner : it.inner.phase = .suspended := by rw [hphase (by simp [h]), h]
      have hclose : it.close lx = (⟨(it.inner.close lx).1, .finished⟩, lx.close) := by
        simp [Screening.close, Direct.close, h, hinner]
      have hwhole : (screening it).close lx =
          (screening ⟨(it.inner.close lx).1, .finished⟩, lx.close) := by
        rw [TokenIterator.close, hclose]
      rw [hwhole]
      exact ⟨(if_pos h).symm, ⟨hscreened, fun hne => absurd rfl hne⟩, rfl, rfl⟩
    · have hclose : it.close lx = ({ it with phase := .finished }, lx) := by
        simp [Screening.close, h]
      have hwhole : (screening it).close lx = (screening { it with phase := .finished }, lx) := by
        rw [TokenIterator.close, hclose]
      rw [hwhole]
      exact ⟨(if_neg h).symm, ⟨hscreened, fun hne => absurd rfl hne⟩, rfl, rfl⟩

/-- Closing an iterator releases the stream or leaves it alone. -/
theorem Sound.lexer_close (hs : it.Sound) (lx : Lexer) :
    (it.close lx).2 = lx ∨ (it.close lx).2 = lx.close := by
  rw [(hs.close lx).1]
  split
  · exact .inr rfl
  · exact .inl rfl

end TokenIterator

/-! ## §4. Every iterator of a session -/

namespace Session

/-- Does the operation make calls of the lexer? -/
def LexerOp.calls : LexerOp → Bool
  | .next | .drain | .advance _ => true
  | _ => false

namespace Shared

variable {s : Shared}

/-- All iterators are sound. -/
def Sound (s : Shared) : Prop := ∀ id, (s.iterator id).Sound

theorem sound_fresh (lx : Lexer) : Sound ⟨lx, []⟩ := fun _ => trivial

/-- An iterator that is not finished takes one pull. -/
theorem advance_of_live {id : Nat} (hs : (s.iterator id).Sound)
    (hlive : (s.iterator id).phase ≠ .finished) :
    ∃ s', (LexerOp.advance id).perform s =
        ((s.lexer.pull (s.iterator id).screens).1.map delivered, s') ∧
      s'.lexer = (s.lexer.pull (s.iterator id).screens).2 ∧
      (s'.iterator id).Sound ∧ (s'.iterator id).screens = (s.iterator id).screens ∧
      (s'.iterator id).phase = .after (s.lexer.pull (s.iterator id).screens).1 := by
  obtain ⟨it', hnext, hit'⟩ := TokenIterator.next_of_live hs hlive s.lexer
  refine ⟨Shared.put { s with lexer := (s.lexer.pull (s.iterator id).screens).2 } id it', ?_, rfl,
    ?_⟩
  · rw [LexerOp.perform, hnext]
  · rw [iterator_put]
    exact hit'

/-- An iterator that is finished has nothing more to deliver. -/
theorem advance_of_finished {id : Nat} (h : (s.iterator id).phase = .finished) :
    (LexerOp.advance id).perform s = (.ok .ended, s.put id (s.iterator id)) := by
  rw [LexerOp.perform, TokenIterator.next_of_finished h]
  rfl

theorem Sound.put (hs : s.Sound) (id : Nat) {it : TokenIterator} (hit : it.Sound) :
    (s.put id it).Sound := by
  intro id'
  rw [iterator_put_eq]
  split
  · exact hit
  · exact hs id'

theorem Sound.make (hs : s.Sound) (id : Nat) {it : TokenIterator} (hit : it.Sound) :
    (s.make id it).Sound := by
  intro id'
  rw [iterator_make_eq]
  split
  · exact hit
  · exact hs id'

theorem Sound.perform (hs : s.Sound) (op : LexerOp) : (op.perform s).2.Sound := by
  cases op with
  | next => exact hs
  | close => exact hs
  | enter => exact hs
  | leave => exact hs
  | drain => exact hs
  | iterate id screened => exact hs.make id trivial
  | screen id => exact hs.make id ⟨rfl, fun _ => rfl⟩
  | advance id => exact Sound.put (s := { s with lexer := _ }) hs id ((hs id).next s.lexer)
  | stop id => exact Sound.put (s := { s with lexer := _ }) hs id ((hs id).close s.lexer).2.1
  | cursor op => exact hs

theorem Sound.after (hs : s.Sound) (ops : List LexerOp) :
    (Session.after LexerOp.perform ops s).Sound :=
  after_preserves (fun op _ h => h.perform op) ops hs

end Shared

/-! ## §5. What an operation does to the lexer -/

/-- What an operation is answered and what becomes of the lexer.  The operations that make no calls
    leave the lexer alone or release the stream, unless they go to the cursor. -/
inductive Effect (s : Shared) : LexerOp → Except Problem Reply → Lexer → Prop where
  | call : Effect s .next (s.lexer.next.1.map .token) s.lexer.next.2
  | drain : Effect s .drain ((s.lexer.collect false).result.map .tokens)
      (s.lexer.collect false).lexer
  | pull {id : Nat} : (s.iterator id).phase ≠ .finished →
      Effect s (.advance id) ((s.lexer.pull (s.iterator id).screens).1.map delivered)
        (s.lexer.pull (s.iterator id).screens).2
  /-- The iterator had ended before. -/
  | ended {id : Nat} : (s.iterator id).phase = .finished →
      Effect s (.advance id) (.ok .ended) s.lexer
  | quiet {op : LexerOp} {reply : Except Problem Reply} : op.calls = false →
      Effect s op reply s.lexer
  | release {op : LexerOp} {reply : Except Problem Reply} : op.calls = false →
      Effect s op reply s.lexer.close
  | cursor {op : CursorOp} : Effect s (.cursor op) (op.perform s.lexer.cursor).1
      { s.lexer with cursor := (op.perform s.lexer.cursor).2 }

/-- Whoever asks, the lexer is called, released or left alone. -/
theorem Shared.Sound.effect {s : Shared} (hs : s.Sound) (op : LexerOp) :
    Effect s op (op.perform s).1 (op.perform s).2.lexer := by
  have hclose : ∀ {op : LexerOp} {reply : Except Problem Reply} (id : Nat), op.calls = false →
      Effect s op reply ((s.iterator id).close s.lexer).2 := by
    intro op reply id hcalls
    rcases (hs id).lexer_close s.lexer with hsame | hreleased
    · rw [hsame]
      exact .quiet hcalls
    · rw [hreleased]
      exact .release hcalls
  cases op with
  | next => exact .call
  | drain => exact .drain
  | advance id =>
    by_cases hfinished : (s.iterator id).phase = .finished
    · rw [advance_of_finished hfinished]
      exact .ended hfinished
    · obtain ⟨s', hadvance, hlexer, -⟩ := advance_of_live (hs id) hfinished
      rw [hadvance, hlexer]
      exact .pull hfinished
  | close => exact .release rfl
  | enter => exact .quiet rfl
  | leave => exact .release rfl
  | iterate id screened => exact hclose id rfl
  | screen id => exact hclose id rfl
  | stop id => exact hclose id rfl
  | cursor op => exact .cursor

end Session

end RpalLex
