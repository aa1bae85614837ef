import Buzzer.Command.Basic
import Buzzer.Simulation
import Buzzer.Wave

/-!
The command that records a song, as it sounds on a target, to a sound file.
-/
namespace Buzzer

namespace Command

/-- The rate of a recording, in samples per second. -/
def recordingRate : Nat := 44100

def recordingUsage : String := "writer <song-file> <wav-file> [atmega3208|atmega328p]"

def failed : Failure → CommandError
  | .refused error => .song error
  | .fault => .fault

variable [Wave.Writer]

/-- Adds the samples of a simulation to a sound file until the song has ended, which has to be after less
than `limit` samples. Gives back the file as it is then, even if something has failed. -/
def fill (simulation : Simulation) (state : Wave.Writer.State) :
    (limit : Nat) → Wave.Writer.State × Except CommandError Unit
  | 0 => (state, .error .fault)
  | limit + 1 =>
    match simulation.next with
    | .fault => (state, .error .fault)
    | .finished => (state, .ok ())
    | .sample value next =>
      match Wave.Writer.add state value with
      | .error text => (state, .error (.wave text))
      | .ok state => fill next state limit

/-- Records the song in a file. -/
def record (arguments : List String) (files : Files) : Work String := do
  let source ← argument arguments 0 "song-file" recordingUsage
  let path ← argument arguments 1 "wav-file" recordingUsage
  let song ← load (← read files source)
  let target ← target arguments[2]?
  target.checkLevels.mapError CommandError.song
  (target.check song).mapError failed
  create files path
  let state ← (Wave.Writer.start 1 recordingRate 8).mapError CommandError.wave
  write path (Wave.Writer.bytes state)
  let simulation ← (Simulation.start song target recordingRate).mapError failed
  -- One sample more than the length tells that the song has ended.
  let (state, filled) := fill simulation state (simulation.length + 1)
  write path (Wave.Writer.bytes state)
  filled
  return s!"rendered {song.durationTicks} ticks, {bpmText song} BPM\n"

end Command

end Buzzer
