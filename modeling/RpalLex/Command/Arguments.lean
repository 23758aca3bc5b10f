import RpalLex.Text.Quoted

/-! # Arguments

  The command takes one file and a number of options.  An option is a long
  one, after two hyphens, with its value behind an equals sign or in the
  next argument; or it is a short one, after one hyphen, and short options
  may be run together.  Options and the file may come in any order, an
  option may be repeated, and what comes after `--` is no option.  A single
  hyphen is a file.

  The first argument that cannot be understood is the error.  Help or the
  version are given, whichever was asked for first, before anybody looks at
  the file. -/

namespace RpalLex.Command

/-! ## §1. What can be wrong -/

/-- Arguments that make no sense. -/
inductive UsageError where
  | noSuchOption (option : String)
  /-- A switch was given a value. -/
  | takesNoValue (option : String)
  /-- The value of an option is missing. -/
  | requiresArgument (option : String)
  | missingFile
  | noFile (path : String)
  | notReadable (path : String)
  | isDirectory (path : String)
  /-- There are arguments after the file. -/
  | extra (arguments : List String)
deriving DecidableEq, Repr

namespace UsageError

def message : UsageError → String
  | noSuchOption option => "No such option " ++ Text.quoted option ++ "."
  | takesNoValue option => "Option " ++ Text.quoted option ++ " does not take a value."
  | requiresArgument option => "Option " ++ Text.quoted option ++ " requires an argument."
  | missingFile => "Missing argument 'INPUT_FILE'."
  | noFile path => "Invalid value for 'INPUT_FILE': File " ++ Text.quoted path ++ " does not exist."
  | notReadable path =>
    "Invalid value for 'INPUT_FILE': File " ++ Text.quoted path ++ " is not readable."
  | isDirectory path =>
    "Invalid value for 'INPUT_FILE': File " ++ Text.quoted path ++ " is a directory."
  | extra arguments =>
    "Got unexpected extra argument" ++ (if arguments.length = 1 then "" else "s") ++ " ("
      ++ " ".intercalate arguments ++ ")"

/-- Is the error shown with a reminder of how the command is used?  An option that is used in the
    wrong way speaks for itself. -/
def showsUsage : UsageError → Bool
  | takesNoValue _ | requiresArgument _ => false
  | _ => true

end UsageError

/-! ## §2. What can be asked for -/

/-- Options without a value. -/
inductive Switch where
  /-- Discardable tokens are shown too. -/
  | all
  | json
  | keepNewline
  | verbose
  | help
  | version
deriving DecidableEq, Repr

/-- What the command can tell about itself. -/
inductive Request where
  | help
  | version
deriving DecidableEq, Repr

/-- The arguments, understood. -/
structure Arguments where
  all : Bool := false
  json : Bool := false
  keepNewline : Bool := false
  verbose : Bool := false
  encoding : Option String := none
  /-- What was asked for first. -/
  request : Option Request := none
  /-- The arguments that are no options. -/
  files : List String := []
deriving DecidableEq, Repr

namespace Arguments

/-- Turns a switch on. -/
def set (a : Arguments) : Switch → Arguments
  | .all => { a with all := true }
  | .json => { a with json := true }
  | .keepNewline => { a with keepNewline := true }
  | .verbose => { a with verbose := true }
  | .help => { a with request := a.request.or (some .help) }
  | .version => { a with request := a.request.or (some .version) }

/-- The switches by their long names. -/
def longSwitch? : String → Option Switch
  | "--all" => some .all
  | "--json" => some .json
  | "--keep-comment-newline" => some .keepNewline
  | "--verbose" => some .verbose
  | "--help" => some .help
  | "--version" => some .version
  | _ => none

/-- The one option with a value. -/
def encodingOption : String := "--encoding"

/-- The switches by their letters. -/
def letterSwitch? : Char → Option Switch
  | 'a' => some .all
  | 'v' => some .verbose
  | _ => none

/-- Turns on the switches of a row of letters. -/
def setLetters : List Char → Arguments → Except UsageError Arguments
  | [], a => .ok a
  | c :: cs, a =>
    match letterSwitch? c with
    | some s => setLetters cs (a.set s)
    | none => .error (.noSuchOption (String.ofList ['-', c]))

/-- The name of an option and the value behind its first equals sign. -/
def splitValue (argument : List Char) : String × Option String :=
  match argument.dropWhile (· != '=') with
  | [] => (String.ofList argument, none)
  | _ :: value => (String.ofList (argument.takeWhile (· != '=')), some (String.ofList value))

/-- Is the argument an option? -/
def isOption (argument : List Char) : Bool :=
  match argument with
  | '-' :: _ :: _ => true
  | _ => false

/-- Understands the arguments one by one. -/
def parseFrom (a : Arguments) : List String → Except UsageError Arguments
  | [] => .ok a
  | arg :: rest =>
    let cs := arg.toList
    if arg = "--" then .ok { a with files := a.files ++ rest }
    else if !isOption cs then parseFrom { a with files := a.files ++ [arg] } rest
    else
      let (name, value?) := splitValue cs
      if name = encodingOption then
        match value?, rest with
        | some value, rest => parseFrom { a with encoding := some value } rest
        | none, value :: rest => parseFrom { a with encoding := some value } rest
        | none, [] => .error (.requiresArgument name)
      else
        match longSwitch? name, value? with
        | some s, none => parseFrom (a.set s) rest
        | some _, some _ => .error (.takesNoValue name)
        | none, _ =>
          if ['-', '-'] <+: cs then .error (.noSuchOption name)
          else
            match setLetters cs.tail a with
            | .ok a => parseFrom a rest
            | .error e => .error e
termination_by args => args.length

/-- Understands the arguments of the command. -/
def parse (args : List String) : Except UsageError Arguments := parseFrom {} args

end Arguments

end RpalLex.Command
