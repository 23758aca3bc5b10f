import RpalLex.File.Path

/-! # Trees of files

  What a path leads to is an *entry*.  A tree of files answers this for
  every path: it starts from a directory, follows the segments of the path
  one by one, and needs a directory wherever it goes on.  Of what lies
  outside of the tree only the directories above it are known. -/

namespace RpalLex.File

/-- What a path leads to. -/
inductive Entry where
  | file (content : List UInt8)
  | directory
  | missing
  /-- A segment before the end is a file. -/
  | throughFile
  /-- There is something, but it may not be read. -/
  | forbidden
deriving DecidableEq, Repr

/-- Files and empty directories, by the segments of their paths. -/
structure Tree where
  entries : List (List (List Char) × Option (List UInt8))
deriving Repr

namespace Tree

/-- A tree from paths with their contents; `none` stands for an empty directory. -/
def ofList (l : List (String × Option (List UInt8))) : Tree where
  entries := l.map fun (path, content) =>
    ((Path.segments path.toList).filter Path.isProper, content)

/-- The entry at the end of a way down from the top.  Whatever lies on the way to an entry is a
    directory. -/
def at? (t : Tree) (way : List (List Char)) : Entry :=
  match t.entries.lookup way with
  | some (some content) => .file content
  | some none => .directory
  | none => if t.entries.any (way <+: ·.1) || way.isEmpty then .directory else .missing

/-- Follows segments from a directory in the tree, or from above it. -/
def follow (t : Tree) : Option (List (List Char)) → List (List Char) → Entry
  | _, [] => .directory
  | place, [] :: rest => t.follow place rest
  | place, ['.'] :: rest => t.follow place rest
  | none, ['.', '.'] :: rest => t.follow none rest
  | some [], ['.', '.'] :: rest => t.follow none rest
  | some way, ['.', '.'] :: rest => t.follow (some way.dropLast) rest
  | none, _ :: _ => .missing
  | some way, s :: rest =>
    match t.at? (way ++ [s]) with
    | .directory => t.follow (some (way ++ [s])) rest
    | .file content => if rest.isEmpty then .file content else .throughFile
    | e => e

/-- The entry that a path leads to.  The empty path leads nowhere. -/
def find (t : Tree) (path : String) : Entry :=
  let cs := path.toList
  if cs.isEmpty then .missing
  else t.follow (if Path.root cs = [] then some [] else none) (Path.segments cs)

end Tree

end RpalLex.File
