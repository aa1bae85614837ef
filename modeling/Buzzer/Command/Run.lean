import Buzzer.Command.Arrangement
import Buzzer.Command.Listing
import Buzzer.Command.Recording
import Buzzer.Elementary
import Buzzer.Midi.Chunk
import Buzzer.Riff

/-!
The commands by their names, and the libraries that they are run with.
-/
namespace Buzzer

namespace Command

variable [FloatLibrary] [Midi.Reader] [Wave.Writer]

/-- The command of a name. -/
def named? : String → Option (List String → Files → Work String)
  | "dump" => some list
  | "convert" => some arrange
  | "writer" => some record
  | _ => none

/-- Runs the command of a name, if there is one. -/
def run? (name : String) (arguments : List String) (files : Files) : Option Outcome :=
  (named? name).map fun command => .ofResult ((command arguments files).run.run [])

end Command

end Buzzer
