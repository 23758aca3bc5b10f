/-! # Paths

  A path is a row of segments with slashes between them.  Empty segments and
  single dots mean nothing and are left out of the *normal form*; two dots
  stay, because they cannot be resolved without looking at the files.  A
  leading slash stays too, and so does a pair of leading slashes, which is
  not the same as one.  The normal form of a path without segments is a
  single dot. -/

namespace RpalLex.File.Path

/-- The segments of a path, empty ones included. -/
def segments (path : List Char) : List (List Char) :=
  path.foldr (fun c parts =>
      if c = '/' then [] :: parts
      else
        match parts with
        | p :: rest => (c :: p) :: rest
        | [] => [[c]]) [[]]

/-- The slashes a path starts with, as far as they mean something. -/
def root (path : List Char) : List Char :=
  match path.takeWhile (· = '/') with
  | [] => []
  | ['/', '/'] => ['/', '/']
  | _ => ['/']

/-- Does a segment lead anywhere? -/
def isProper (segment : List Char) : Bool := segment != [] && segment != ['.']

/-- The normal form of a path. -/
def normal (path : String) : String :=
  let cs := path.toList
  match root cs ++ ['/'].intercalate ((segments cs).filter isProper) with
  | [] => "."
  | n => String.ofList n

end RpalLex.File.Path
