import RpalLex.Error

/-! # Streams of characters

  A stream is known by what its reads will give, one after another: a
  character, the end of the text, or a fault.  When the script is used up,
  every further read gives the end.  The stream remembers what was asked of
  it, newest first, so that one can tell afterwards how often it was closed
  and whether it was read after that.

  Main statements: `closeCount_read` and `closeCount_close` (closing counts,
  reading does not). -/

namespace RpalLex

/-- What one read of a stream gives. -/
inductive Read where
  | char (c : Char)
  | endOfText
  | fault (f : Fault)
deriving DecidableEq, Repr

/-- What was asked of a stream, and what came of it. -/
inductive Stream.Event where
  | read (given : Read)
  | close
deriving DecidableEq, Repr

/-- A stream: what its reads will give, and what happened to it so far. -/
structure Stream where
  script : List Read
  /-- The newest event first. -/
  history : List Stream.Event := []
deriving DecidableEq, Repr

namespace Stream

/-- A stream that delivers a text and ends. -/
def ofText (text : String) : Stream := { script := text.toList.map .char }

/-- One read. -/
def read (s : Stream) : Read × Stream :=
  match s.script with
  | [] => (.endOfText, { s with history := .read .endOfText :: s.history })
  | r :: rest => (r, { script := rest, history := .read r :: s.history })

/-- Releases the stream. -/
def close (s : Stream) : Stream := { s with history := .close :: s.history }

/-- How often the stream was closed. -/
def closeCount (s : Stream) : Nat := s.history.count .close

/-- Has a read given the end of the text? -/
def sawEnd (s : Stream) : Bool := s.history.contains (.read .endOfText)

@[simp] theorem script_close (s : Stream) : s.close.script = s.script := rfl

@[simp] theorem closeCount_close (s : Stream) : s.close.closeCount = s.closeCount + 1 := by
  simp [close, closeCount]

@[simp] theorem closeCount_read (s : Stream) : s.read.2.closeCount = s.closeCount := by
  unfold read
  split <;> simp [closeCount]

theorem read_cons {r : Read} {rest : List Read} {past : List Event} :
    read ⟨r :: rest, past⟩ = (r, ⟨rest, .read r :: past⟩) := rfl

theorem read_nil {past : List Event} :
    read ⟨[], past⟩ = (.endOfText, ⟨[], .read .endOfText :: past⟩) := rfl

end Stream

end RpalLex
