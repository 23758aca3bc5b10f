import RpalLex.Charset.Decoding
import RpalLex.File.Tree
import RpalLex.Lexer
import RpalLex.Settings

/-! # Opening files

  A file is opened by its path, in normal form, and the name of a charset.
  Of several things that may be wrong the first in this order counts: a NUL
  in the name of the charset, a NUL in the path, what the path leads to, and
  the name of the charset.  The first two are faults; the others make a
  lexical error without a location. -/

namespace RpalLex.File

/-- A fault of opening a file, with the number and the words by which operating systems know it. -/
def openFault (kind : FaultKind) (number : Nat) (words path : String) : Fault :=
  ⟨kind, "[Errno " ++ Text.decimal number ++ "] " ++ words ++ ": " ++ Text.quoted path⟩

/-- The content of the file at the end of a path. -/
def Entry.content (path : String) : Entry → Except Fault (List UInt8)
  | file content => .ok content
  | directory => .error (openFault .isDirectory 21 "Is a directory" path)
  | missing => .error (openFault .notFound 2 "No such file or directory" path)
  | throughFile => .error (openFault .notDirectory 20 "Not a directory" path)
  | forbidden => .error (openFault .notPermitted 13 "Permission denied" path)

/-- The reads of a file. -/
def reads (find : String → Entry) (path encoding : String) : Except Fault (List Read) := do
  let bytes ← (find path).content path
  let cs ← Charset.ofName encoding
  return cs.reads bytes

/-- A cursor at the beginning of a file. -/
def openCursor (find : String → Entry) (path encoding : String) : Except Problem Cursor :=
  let normal := Path.normal path
  if encoding.contains '\x00' then .error (.fault ⟨.badValue, "embedded null character"⟩)
  else if normal.contains '\x00' then .error (.fault ⟨.badValue, "embedded null byte"⟩)
  else
    match reads find normal encoding with
    | .ok script => .ok { filename := normal, stream := { script } }
    | .error f =>
      .error (.lexical (.unreadable ("cannot open '" ++ normal ++ "': " ++ f.message) none none
        (some (.fault f.kind))))

/-- A lexer at the beginning of a file. -/
def openLexer (find : String → Entry) (path : String) (settings : Settings) :
    Except Problem Lexer :=
  (openCursor find path settings.encoding).map fun cursor =>
    { cursor, keepNewline := settings.keepNewline }

/-- The tokens of a file. -/
def tokenize (find : String → Entry) (path : String) (settings : Settings) (screened : Bool) :
    Except Problem (List Token) :=
  match openLexer find path settings with
  | .ok lx => (lx.collect screened).result
  | .error p => .error p

end RpalLex.File
