import RpalLex.Command.Run

/-! # The program

  The command on real files and in the real environment.  The file is looked
  at before the command runs, both as it was named and in normal form. -/

namespace RpalLex.Command

/-- Does a path lead to a directory? -/
def leadsToDirectory (path : String) : IO Bool := do
  try (← IO.FS.realPath path).isDir catch _ => return false

/-- What a path leads to. -/
def entryAt (path : String) : IO File.Entry := do
  try
    return .file (← IO.FS.readBinFile path).toList
  catch
    | .noFileOrDirectory .. => return .missing
    | .permissionDenied .. => return .forbidden
    | _ => return if ← leadsToDirectory path then .directory else .throughFile

/-- The paths that a run of the command asks about. -/
def pathsAsked (args : List String) : List String :=
  match Arguments.parse args with
  | .ok a => a.files.head?.toList.flatMap fun path => [path, File.Path.normal path]
  | .error _ => []

end RpalLex.Command

open RpalLex RpalLex.Command in
/-- Runs the command and leaves its report. -/
def main (args : List String) : IO UInt32 := do
  let entries ← (pathsAsked args).mapM fun path => return (path, ← entryAt path)
  let values ← [Settings.encodingVariable, Settings.keepNewlineVariable].mapM fun name =>
    return (name, ← IO.getEnv name)
  let report := run args (fun name => (values.lookup name).join)
    (fun path => (entries.lookup path).getD .missing)
  IO.print report.stdout
  IO.eprint report.stderr
  return report.exit.code.toUInt32
