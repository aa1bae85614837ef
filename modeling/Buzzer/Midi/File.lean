/-!
MIDI files, as a library reads them.
-/
namespace Buzzer

namespace Midi

/-- What an event says, as far as it matters for a song. -/
inductive Message where
  | noteOn (key velocity : Nat)
  | noteOff (key : Nat)
  /-- The length of a beat, in microseconds. -/
  | tempo (beatMicros : Nat)
  | other

structure TrackEvent where
  /-- The time since the event before it. -/
  delta : Nat
  message : Message

/-- How the times of a file are meant. -/
inductive Timing where
  | ticksPerBeat (ticks : Nat)
  /-- In frames per second. -/
  | timecode

structure File where
  timing : Timing
  tracks : List (List TrackEvent)

/-- A library that reads MIDI files. -/
class Reader where
  /-- The file that some bytes are, if they can be read. -/
  file? : List UInt8 → Option File

end Midi

end Buzzer
