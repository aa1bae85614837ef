/-!
Paths, and the places in a file system that they stand for when every directory on the way exists.
-/
namespace Buzzer

namespace Command

/-- The names along a path, with the points that stand for a directory and the one above it. -/
def pathNames (path : String) : List String := (path.splitOn "/").filter (· ≠ "")

/-- The name of the file that a path leads to, if it does not lead back up. -/
def fileName? (path : String) : Option String :=
  match ((pathNames path).filter (· ≠ ".")).getLast? with
  | some ".." => none
  | name => name

/-- The parts of a file name before and after its last point. A point at the start belongs to the
name. -/
def splitName (name : String) : String × Option String :=
  match (name.splitOn ".").reverse with
  | extension :: before :: earlier =>
    let stem := ".".intercalate (before :: earlier).reverse
    if stem = "" then (name, none) else (stem, some extension)
  | _ => (name, none)

def extension? (path : String) : Option String := (fileName? path).bind fun name => (splitName name).2

def stem? (path : String) : Option String := (fileName? path).map fun name => (splitName name).1

/-- A directory that the names of a place start from. -/
inductive Base where
  | root
  /-- The directory that is a number of levels above the one in which a command runs. -/
  | ancestor (levels : Nat)
  deriving DecidableEq

/-- A place in a file system, where there may or may not be something. -/
structure Place where
  base : Base
  /-- The names from the base on. None of them stands for a directory on the way. -/
  names : List String
  deriving DecidableEq

namespace Place

/-- The directory above a place. The root is above itself. -/
def above (place : Place) : Place :=
  match place.names, place.base with
  | [], .root => place
  | [], .ancestor levels => ⟨.ancestor (levels + 1), []⟩
  | names, base => ⟨base, names.dropLast⟩

/-- The place of a name in a directory. -/
def enter (place : Place) (name : String) : Place :=
  match name with
  | "." => place
  | ".." => place.above
  | name => { place with names := place.names ++ [name] }

/-- Where a path starts. -/
def start (path : String) : Place := ⟨if path.startsWith "/" then .root else .ancestor 0, []⟩

def ofPath (path : String) : Place := (pathNames path).foldl enter (start path)

/-- Whether one place is in the directory at another, or in a directory in there. -/
def isInside (place directory : Place) : Bool :=
  place.base = directory.base && directory.names.isPrefixOf place.names.dropLast

end Place

end Command

end Buzzer
