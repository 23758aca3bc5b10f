import RpalLex.Command.Arguments
import RpalLex.Error
import RpalLex.Text.Plain

/-! # Reports

  What a run of a command leaves behind is a *report*: an exit code, and
  what was written to the standard output and to the standard error.  Every
  kind of trouble has its exit code and its words.

  A message may hold what somebody gave as an argument or as a file's name.
  It is written as plain text, so nothing in it can take hold of a terminal. -/

namespace RpalLex.Command

/-! ## §1. Exit codes -/

/-- How a command ended. -/
inductive ExitCode where
  | success
  /-- The program has a lexical error, or could not be read. -/
  | scanError
  /-- The arguments make no sense, or a file is missing. -/
  | invalidArguments
  | internalError
deriving DecidableEq, Repr

namespace ExitCode

/-- The exit codes in ascending order. -/
def all : List ExitCode := [success, scanError, invalidArguments, internalError]

def code : ExitCode → Nat
  | success => 0
  | scanError => 1
  | invalidArguments => 2
  | internalError => 3

end ExitCode

/-! ## §2. Reports -/

/-- What a run of a command leaves behind. -/
structure Report where
  exit : ExitCode
  stdout : String
  stderr : String
deriving DecidableEq, Repr

/-- Texts, each on a line of its own. -/
def lines (texts : List String) : String := String.join (texts.map (· ++ "\n"))

/-- How the command is used. -/
def usage : String := "Usage: rpalscan [OPTIONS] INPUT_FILE\n"

/-- The report of arguments that make no sense. -/
def UsageError.report (e : UsageError) : Report where
  exit := .invalidArguments
  stdout := ""
  stderr :=
    (if e.showsUsage then usage ++ "Try 'rpalscan --help' for help.\n\n" else "")
      ++ "Error: " ++ Text.plain e.message ++ "\n"

/-! ## §3. Trouble -/

/-- What can keep a command from its work once its arguments are understood. -/
inductive Trouble where
  | problem (p : Problem)
  /-- The value of an argument turned out to be wrong. -/
  | badArgument (message : String)
deriving DecidableEq, Repr

namespace Trouble

/-- A program that is wrong or unreadable is one thing, a file that is missing or may not be read
    another; whatever else happens should not have happened. -/
def exit : Trouble → ExitCode
  | problem (.lexical _) => .scanError
  | problem (.fault f) =>
    if f.kind = .notFound ∨ f.kind = .notPermitted then .invalidArguments else .internalError
  | problem _ => .internalError
  | badArgument _ => .invalidArguments

def message : Trouble → String
  | problem p => p.text
  | badArgument m => m

/-- The lines on the standard error.  A lexical error speaks for itself.  Under `verbose` an
    internal error is followed by its trace, which is empty. -/
def messageLines (t : Trouble) (verbose : Bool) : List String :=
  match t.exit with
  | .internalError =>
    ("Internal error: " ++ Text.plain t.message) :: if verbose then ["NoneType: None"] else []
  | .invalidArguments => ["Error: " ++ Text.plain t.message]
  | _ => [Text.plain t.message]

/-- The report of trouble that came before any output. -/
def report (t : Trouble) (verbose : Bool) : Report where
  exit := t.exit
  stdout := ""
  stderr := lines (t.messageLines verbose)

end Trouble

end RpalLex.Command
