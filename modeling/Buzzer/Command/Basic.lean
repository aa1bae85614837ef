import Buzzer.Command.Files
import Buzzer.Midi.Arranger
import Buzzer.Song.Check
import Buzzer.Target.Shipped

/-!
What the commands have in common: how they fail, how they make files, and what they leave behind.
-/
namespace Buzzer

/-- Why a command fails. -/
inductive CommandError where
  | missingArgument (argument usage : String)
  | unknownTarget (name : String)
  | unknownStrategy (name : String)
  | arrange (error : Midi.ArrangeError)
  | song (error : SongError)
  /-- A file cannot be read or made. -/
  | file (error : Command.PathError)
  /-- A sound file cannot be written, for a reason that the library gives. -/
  | wave (reason : String)
  /-- The song or the table of levels ends too early. -/
  | fault

namespace CommandError

/-- The text shown to a user. -/
def message : CommandError → String
  | missingArgument argument usage => s!"Missing {argument} argument\nUsage: {usage}"
  | unknownTarget name => s!"Unknown target `{name}`"
  | unknownStrategy name => s!"Unknown strategy `{name}`"
  | arrange _ => "MIDI conversion error"
  | song _ => "Song error"
  | file _ => "I/O error"
  | wave _ => "Wave writer error"
  | fault => "Song data error"

/-- What led to the error, from the nearest cause to the first. -/
def causes : CommandError → List String
  | arrange (.song error) => [(Midi.ArrangeError.song error).message, error.message]
  | arrange error => [error.message]
  | song error => [error.message]
  | file error => [error.message]
  | wave reason => [reason]
  | _ => []

/-- The lines that a command writes when it fails. -/
def report (error : CommandError) : String :=
  s!"error: {error.message}\n" ++ "".intercalate (error.causes.map fun cause => s!"caused by: {cause}\n")

end CommandError

namespace Command

/-- Files that a command has made, by their paths. -/
abbrev Made := List (String × List UInt8)

/-- A command at work. The files that it has made stay when it fails. -/
abbrev Work := ExceptT CommandError (StateM Made)

/-- What a command leaves behind. -/
structure Outcome where
  code : Nat
  output : String := ""
  errors : String := ""
  made : Made := []

def Outcome.ofResult : Except CommandError String × Made → Outcome
  | (.ok output, made) => { code := 0, output, made }
  | (.error error, made) => { code := 1, errors := error.report, made }

def argument (arguments : List String) (position : Nat) (name usage : String) :
    Except CommandError String :=
  match arguments[position]? with
  | some argument => .ok argument
  | none => .error (.missingArgument name usage)

def read (files : Files) (path : String) : Except CommandError (List UInt8) :=
  (files.read path).mapError .file

def checkMake (files : Files) (path : String) : Except CommandError Unit :=
  (files.checkMake path).mapError .file

/-- Gives a file its bytes, in place of those that it has. -/
def write (path : String) (bytes : List UInt8) : Work Unit :=
  modify fun made => (path, bytes) :: made.filter (·.1 ≠ path)

/-- Makes a file, which is empty at first even if there has been one. -/
def create (files : Files) (path : String) : Work Unit := do
  checkMake files path
  write path []

def load (bytes : List UInt8) : Except CommandError Song := (Song.ofBytes bytes).mapError .song

/-- The target of a name, and the first of the shipped ones if none is named. -/
def target (name : Option String) : Except CommandError Target :=
  match name with
  | none => .ok .atmega3208
  | some name =>
    match Target.named? name with
    | some target => .ok target
    | none => .error (.unknownTarget name)

/-- The tempo of a song, in beats per minute. -/
def bpmText (song : Song) : String :=
  Decimal.fixed 1 (Tempo.bpm (song.tempo?.getD 0)).toFloat

end Command

end Buzzer
