import Buzzer.Command.Run

/-!
The command line: the name of a command, then its arguments.
-/
namespace Buzzer

namespace Command

/-- What is wrong with a path that the system has refused. Its codes come with either sign. -/
def pathError : IO.Error → PathError
  | .inappropriateType _ code _ => if code = 21 ∨ code = 0 - 21 then .isDirectory else .notDirectory
  | .invalidArgument .. => .nameTooLong
  | _ => .missing

/-- The paths of everything along a path, and of what it leads to. -/
def pathsAlong (path : String) : List String :=
  let names := pathNames path
  let root := if path.startsWith "/" then "/" else ""
  (List.range names.length).map fun count => root ++ "/".intercalate (names.take (count + 1))

/-- The files and directories along some paths. -/
def findFiles (paths : List String) : IO Files := do
  let mut files : Files := { contents := [] }
  for path in paths.flatMap pathsAlong do
    try
      let bytes ← IO.FS.readBinFile path
      files := { files with contents := files.contents ++ [(path, bytes.toList)] }
    catch error =>
      if pathError error = .isDirectory then
        files := { files with directories := files.directories ++ [path] }
  return files

/-- Makes the files of an outcome and shows its texts. A file that cannot be made is an error. -/
def finish (outcome : Outcome) : IO UInt32 := do
  try
    for (path, bytes) in outcome.made do
      IO.FS.writeBinFile path ⟨bytes.toArray⟩
    IO.print outcome.output
    IO.eprint outcome.errors
    return UInt32.ofNat outcome.code
  catch error =>
    IO.eprint (CommandError.file (pathError error)).report
    return 1

end Command

end Buzzer

open Buzzer in
def main (arguments : List String) : IO UInt32 := do
  let (name, arguments) := (arguments.headD "", arguments.drop 1)
  match Command.run? name arguments (← Command.findFiles arguments) with
  | some outcome => Command.finish outcome
  | none =>
    IO.eprintln "Usage: buzzer dump|convert|writer <arguments>"
    return 1
