import RpalLex.Charset.Utf16
import RpalLex.Error

/-! # Charsets and their names

  A charset is asked for by name.  Names are compared without regard to
  case, and whatever stands between letters, digits and dots counts as one
  separator; every charset has a proper name and a number of aliases.  Some
  names stand for encodings that do not lead to text, and are refused. -/

namespace RpalLex

/-- The charsets a program may be written in. -/
inductive Charset where
  | utf8
  /-- UTF-8 with a byte order mark at the beginning, which is not part of the text. -/
  | utf8Marked
  | ascii
  | latin1
  | windows1252
  /-- UTF-16 with a byte order mark at the beginning, which tells the byte order. -/
  | utf16Marked
  | utf16 (order : Charset.Utf16.ByteOrder)
deriving DecidableEq, Repr

namespace Charset

/-- The charsets that have names. -/
def all : List Charset :=
  [utf8, utf8Marked, ascii, latin1, windows1252, utf16Marked, utf16 .little, utf16 .big]

def properName : Charset → String
  | utf8 => "utf_8"
  | utf8Marked => "utf_8_sig"
  | ascii => "ascii"
  | latin1 => "latin_1"
  | windows1252 => "cp1252"
  | utf16Marked => "utf_16"
  | utf16 .little => "utf_16_le"
  | utf16 .big => "utf_16_be"

def aliases : Charset → List String
  | utf8 => ["u8", "utf", "utf8", "utf8_ucs2", "utf8_ucs4", "cp65001"]
  | utf8Marked => []
  | ascii =>
    ["646", "ansi_x3.4_1968", "ansi_x3_4_1968", "ansi_x3.4_1986", "cp367", "csascii", "ibm367",
     "iso646_us", "iso_646.irv_1991", "iso_ir_6", "us", "us_ascii"]
  | latin1 =>
    ["8859", "cp819", "csisolatin1", "ibm819", "iso8859", "iso8859_1", "iso_8859_1",
     "iso_8859_1_1987", "iso_ir_100", "l1", "latin", "latin1"]
  | windows1252 => ["1252", "windows_1252"]
  | utf16Marked => ["u16", "utf16"]
  | utf16 .little => ["unicodelittleunmarked", "utf_16le"]
  | utf16 .big => ["unicodebigunmarked", "utf_16be"]

/-- The names of encodings that do not lead to text. -/
def otherEncodings : List String :=
  ["base64", "base_64", "base64_codec", "bz2", "bz2_codec", "hex", "hex_codec", "quopri",
   "quoted_printable", "quotedprintable", "quopri_codec", "rot13", "rot_13", "uu", "uu_codec",
   "zip", "zlib", "zlib_codec"]

/-- Does the character belong to a name, rather than separate its parts? -/
def isNameChar (c : Char) : Bool := c.isAlphanum || c == '.'

/-- The parts of a name, in lower case. -/
def nameParts (name : List Char) : List (List Char) :=
  (name.foldr (fun c parts =>
      if isNameChar c then
        match parts with
        | p :: rest => (c.toLower :: p) :: rest
        | [] => [[c.toLower]]
      else [] :: parts) [[]]).filter (!·.isEmpty)

/-- A name in the form in which names are compared. -/
def normalName (name : String) : String :=
  String.ofList (['_'].intercalate (nameParts name.toList))

/-- Is the name, in normal form, one of the charset's?  An alias may have a dot where the charset
    has a separator. -/
def hasName (name : String) (cs : Charset) : Bool :=
  cs.properName == name || cs.aliases.contains name
    || cs.aliases.contains (name.map fun c => if c = '.' then '_' else c)

/-- The charset of a name. -/
def ofName (name : String) : Except Fault Charset :=
  match all.find? (hasName (normalName name)) with
  | some cs => .ok cs
  | none =>
    .error ⟨.unknownName,
      if otherEncodings.contains (normalName name) then
        "'" ++ name ++ "' is not a text encoding; use codecs.open() to handle arbitrary codecs"
      else "unknown encoding: " ++ name⟩

end Charset

end RpalLex
