import Buzzer.Command.Path

/-!
The files that a command reads and makes. A file can be made in any directory that exists.
-/
namespace Buzzer

namespace Command

/-- Why there is no file to be read or made at a path. -/
inductive PathError where
  | missing
  | notDirectory
  | isDirectory
  | nameTooLong
  deriving DecidableEq

/-- The text shown to a user. -/
def PathError.message : PathError → String
  | missing => "No such file or directory (os error 2)"
  | notDirectory => "Not a directory (os error 20)"
  | isDirectory => "Is a directory (os error 21)"
  | nameTooLong => "File name too long (os error 36)"

/-- The most bytes in a name. -/
def maxName : Nat := 255

/-- The most bytes in a path. -/
def maxPath : Nat := 4095

/-- What there is at a place. -/
inductive Entry where
  | file (bytes : List UInt8)
  | directory

/-- The files and directories that a command finds, by their paths. -/
structure Files where
  contents : List (String × List UInt8)
  directories : List String := []

namespace Files

/-- Whether a directory is known. Those in which a command runs are, and those with a file in them. -/
def hasDirectory (files : Files) (place : Place) : Bool :=
  place.names.isEmpty || files.directories.any (Place.ofPath · = place) ||
    files.contents.any fun (path, _) => (Place.ofPath path).isInside place

def entry? (files : Files) (place : Place) : Option Entry :=
  match files.contents.find? fun (path, _) => Place.ofPath path = place with
  | some (_, bytes) => some (.file bytes)
  | none => if files.hasDirectory place then some .directory else none

/-- Goes from a directory to a name in it. -/
def step (directory : Place) (name : String) : Except PathError Place :=
  if maxName < name.utf8ByteSize then .error .nameTooLong else .ok (directory.enter name)

/-- Follows names that all have to lead to directories. -/
def follow (files : Files) (directory : Place) : List String → Except PathError Place
  | [] => .ok directory
  | name :: names => do
    let next ← step directory name
    match files.entry? next with
    | none => throw .missing
    | some (.file _) => throw .notDirectory
    | some .directory => files.follow next names

/-- The directory in which the last name of a path is looked up, and that name unless it stands for a
directory in any case. -/
def locate (files : Files) (path : String) : Except PathError (Place × Option String) :=
  if path.isEmpty then .error .missing
  else if maxPath < path.utf8ByteSize then .error .nameTooLong
  else do
    let names := pathNames path
    let directory ← files.follow (Place.start path) names.dropLast
    return (directory, names.getLast?.filter fun name => name ≠ "." && name ≠ "..")

/-- Reads the file at a path. -/
def read (files : Files) (path : String) : Except PathError (List UInt8) := do
  match ← files.locate path with
  | (_, none) => throw .isDirectory
  | (directory, some name) =>
    match files.entry? (← step directory name) with
    | none => throw .missing
    | some .directory => throw .isDirectory
    | some (.file bytes) => if path.endsWith "/" then throw .notDirectory else return bytes

/-- Checks that a file can be made at a path, or the one that is there be made anew. -/
def checkMake (files : Files) (path : String) : Except PathError Unit := do
  match ← files.locate path with
  | (_, none) => throw .isDirectory
  | (directory, some name) =>
    if path.endsWith "/" then throw .isDirectory
    match files.entry? (← step directory name) with
    | some .directory => throw .isDirectory
    | _ => return

end Files

end Command

end Buzzer
