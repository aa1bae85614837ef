import Buzzer.Midi.File
import Buzzer.Midi.TempoMap

/-!
The notes and tempos of a whole MIDI file on one time line.
-/
namespace Buzzer

namespace Midi

/-- A key that goes down or up. -/
structure NoteEvent where
  time : Nat
  key : Nat
  on : Bool

/-- The latest time that a file can reach. -/
def maxTime : Nat := 0xffffffff

/-- An event at its time in the file. -/
structure Timed where
  time : Nat
  message : Message

/-- The events of a track at their times, from `time` on. -/
def timedFrom (time : Nat) : List TrackEvent → List Timed
  | [] => []
  | event :: later =>
    let time := min (time + event.delta) maxTime
    ⟨time, event.message⟩ :: timedFrom time later

structure Timeline where
  /-- The note events of every track, in the order of their times. -/
  notes : List (List NoteEvent)
  tempos : TempoMap
  /-- The time of the last event. -/
  duration : Nat

namespace Timeline

/-- The key that an event moves. One that goes down without any velocity goes up. -/
def noteEvent? (event : Timed) : Option NoteEvent :=
  match event.message with
  | .noteOn key velocity => some ⟨event.time, key, decide (0 < velocity)⟩
  | .noteOff key => some ⟨event.time, key, false⟩
  | _ => none

/-- The change of tempo that an event makes. A beat without length changes nothing. -/
def tempoChange? (event : Timed) : Option TempoChange :=
  match event.message with
  | .tempo beatMicros => if 0 < beatMicros then some ⟨event.time, beatMicros⟩ else none
  | _ => none

def ofFile (file : File) : Timeline :=
  let tracks := file.tracks.map (timedFrom 0)
  { notes := tracks.map (·.filterMap noteEvent?)
    tempos := .ofChanges (tracks.flatMap (·.filterMap tempoChange?))
    duration := (tracks.flatMap (·.map Timed.time)).foldl max 0 }

end Timeline

end Midi

end Buzzer
