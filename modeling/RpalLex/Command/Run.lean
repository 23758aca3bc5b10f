import RpalLex.Command.Report
import RpalLex.File.Opening
import RpalLex.Listing

/-! # The command

  The command lists the tokens of a file, as lines of a table or as data.
  Settings are taken from the environment, and the arguments override them.

  In a table the tokens before an error are shown; as data nothing is.  A
  verbose run tells on the standard error what it does. -/

namespace RpalLex.Command

/-! ## §1. Texts -/

def version : String := "1.0.0"

def versionText : String := "rpalscan, version " ++ version ++ "\n"

def helpText : String := usage ++ "
  Scan an RPAL source file and print its tokens.

  INPUT_FILE is the RPAL source file to scan.

  Examples:
      rpalscan fact.rpal            # Tokens a parser would see
      rpalscan -a fact.rpal         # Include whitespace and comments
      rpalscan --json fact.rpal     # Machine-readable output

  Defaults for --encoding and --keep-comment-newline can be set with
  RPAL_SCANNER_ENCODING and RPAL_SCANNER_KEEP_COMMENT_NEWLINE.

Options:
  -a, --all               Include whitespace and comment tokens
  --json                  Print tokens as a JSON array
  --keep-comment-newline  Emit the newline ending a comment as whitespace
  --encoding TEXT         Source file encoding (default: utf-8)
  -v, --verbose           Verbose output
  --version               Show the version and exit.
  --help                  Show this message and exit.
"

def Request.text : Request → String
  | .help => helpText
  | .version => versionText

/-! ## §2. Scanning -/

/-- The settings of a run. -/
def Arguments.settings (a : Arguments) (env : String → Option String) : Settings :=
  let s := Settings.ofEnvironment env
  { encoding := a.encoding.getD s.encoding, keepNewline := a.keepNewline || s.keepNewline }

/-- What a run writes to the standard output. -/
def Arguments.output (a : Arguments) (r : Lexer.Run) : String :=
  if a.json then
    match r.problem with
    | none => lines [Listing.array r.tokens]
    | some _ => ""
  else lines (r.tokens.map Listing.line)

/-- What a verbose run tells about a file that was opened, before its outcome. -/
def runLog (encoding : String) (r : Lexer.Run) : List String :=
  let cur := r.lexer.cursor
  ["DEBUG: Opened " ++ cur.filename ++ " (" ++ encoding ++ ")"]
    ++ (if cur.stream.sawEnd then
        ["DEBUG: End of stream in " ++ cur.filename ++ " at line " ++ Text.decimal cur.place.line]
      else [])
    ++ ["DEBUG: Scanned " ++ Text.decimal r.lexer.tokenCount ++ " tokens from " ++ cur.filename]

/-- How a run ended, and the lines that tell it. -/
def ending (verbose : Bool) (r : Lexer.Run) : ExitCode × List String :=
  match r.problem with
  | none =>
    (.success,
      if verbose then ["DEBUG: " ++ Text.decimal r.lexer.tokenCount ++ " tokens scanned"] else [])
  | some p => ((Trouble.problem p).exit, (Trouble.problem p).messageLines verbose)

/-- Lists the tokens of a file. -/
def scan (a : Arguments) (settings : Settings) (find : String → File.Entry) (path : String) :
    Report :=
  let opening := "DEBUG: Scanning " ++ File.Path.normal path ++ " (encoding=" ++ settings.encoding
    ++ ")"
  let log (ls : List String) : List String := if a.verbose then ls else []
  match File.openLexer find path settings with
  | .error p =>
    ⟨(Trouble.problem p).exit, "",
      lines (log [opening] ++ (Trouble.problem p).messageLines a.verbose)⟩
  | .ok lx =>
    let r := lx.collect (!a.all)
    let (exit, told) := ending a.verbose r
    ⟨exit, a.output r, lines (log (opening :: runLog settings.encoding r) ++ told)⟩

/-! ## §3. The whole command -/

/-- The file among the arguments.  It has to be there, and alone. -/
def Arguments.file (a : Arguments) (find : String → File.Entry) : Except UsageError String :=
  match a.files with
  | [] => .error .missingFile
  | path :: more =>
    match find path with
    | .file _ => if more.isEmpty then .ok path else .error (.extra more)
    | .directory => .error (.isDirectory path)
    | .forbidden => .error (.notReadable path)
    | .missing | .throughFile => .error (.noFile path)

/-- Is the file's path one that no file system can look up?  So it is if it holds a NUL. -/
def Arguments.holdsNul (a : Arguments) : Bool := a.files.head?.any (·.contains '\x00')

/-- Runs the command on its arguments, in an environment and among files.  A path that cannot be
    looked up ends the run without a word. -/
def run (args : List String) (env : String → Option String) (find : String → File.Entry) :
    Report :=
  match Arguments.parse args with
  | .error e => e.report
  | .ok a =>
    match a.request with
    | some request => ⟨.success, request.text, ""⟩
    | none =>
      if a.holdsNul then ⟨.scanError, "", ""⟩
      else
        match a.file find with
        | .error e => e.report
        | .ok path => scan a (a.settings env) find path

end RpalLex.Command
