import Buzzer.Tempo

/-!
The tempos of a MIDI file, and how its time is cut into frames, one for every tick of a song. A frame
is a sixteenth of a beat at the average tempo, so it spans more of the file's time where the file is
faster than that.
-/
namespace Buzzer

namespace Midi

/-- The length of a beat, in microseconds, from a time on. -/
structure TempoChange where
  time : Nat
  beatMicros : Nat

/-- The length of a beat until the first change. -/
def defaultBeat : Nat := 500000

/-- The changes of tempo in the order of their times, no two at one time. -/
structure TempoMap where
  changes : List TempoChange

namespace TempoMap

/-- Keeps the last of the changes at one time. -/
def lastOfEach : List TempoChange → List TempoChange
  | first :: second :: later =>
    if first.time = second.time then lastOfEach (second :: later)
    else first :: lastOfEach (second :: later)
  | changes => changes

/-- The map of changes in the order in which a file makes them. -/
def ofChanges (changes : List TempoChange) : TempoMap :=
  ⟨lastOfEach ((⟨0, defaultBeat⟩ :: changes).mergeSort (·.time ≤ ·.time))⟩

/-- The sum of beat lengths over the time from `since` up to `duration`, added to `total`. -/
def weightFrom (duration since beat : Nat) (total : Float) : List TempoChange → Float
  | change :: later =>
    if change.time < duration then
      weightFrom duration change.time change.beatMicros
        (total + Float.ofNat beat * Float.ofNat (change.time - since)) later
    else total + Float.ofNat beat * Float.ofNat (duration - since)
  | [] => total + Float.ofNat beat * Float.ofNat (duration - since)

/-- The average length of a beat, in microseconds. -/
def average (tempos : TempoMap) (duration : Nat) : Float :=
  if duration = 0 then
    Float.ofNat (((tempos.changes.takeWhile (·.time = 0)).getLast?).elim defaultBeat (·.beatMicros))
  else weightFrom duration 0 defaultBeat 0 tempos.changes / Float.ofNat duration

/-- The length of a beat at a time, where it was `beat` before the changes, and the changes after. -/
def advance (time beat : Nat) : List TempoChange → Nat × List TempoChange
  | change :: later =>
    if change.time ≤ time then advance time change.beatMicros later else (beat, change :: later)
  | [] => (beat, [])

/-- A time as the file counts it, cut off. -/
def wholeTime (time : Float) : Nat := time.toUInt32.toNat

/-- The bounds of the frames from `time` on, after those of `earlier`, the latest of which comes
first: the start of each frame, then the end of the last. -/
def boundsFrom [FloatLibrary] (average step duration : Float) (earlier : List Nat) (time : Float) (beat : Nat)
    (changes : List TempoChange) : (frames : Nat) → List Nat
  | 0 => (wholeTime (FloatLibrary.round time) :: earlier).reverse
  | frames + 1 =>
    let reached := wholeTime (FloatLibrary.round time) :: earlier
    if time < duration then
      let (beat, changes) := advance (wholeTime time) beat changes
      let next := time + average / Float.ofNat beat * step
      boundsFrom average step duration reached next beat changes frames
    else reached.reverse

/-- The frames that fit into one unit of a file's time at most: the beat of a frame is at most 2^24
times as fast as the average, and a unit is at most a beat, of sixteen frames. -/
def framesPerUnit : Nat := 0x10000000

/-- The bounds of the frames of a file. -/
def frameBounds [FloatLibrary] (tempos : TempoMap) (average : Float) (unitsPerBeat duration : Nat) :
    List Nat :=
  let step := Float.ofNat unitsPerBeat / Float.ofNat ticksPerBeat
  boundsFrom average step (Float.ofNat duration) [] 0 defaultBeat tempos.changes
    (duration * framesPerUnit)

end TempoMap

end Midi

end Buzzer
