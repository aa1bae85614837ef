import Buzzer.Device.Oscillator
import Buzzer.Song.Durations

/-!
The channels of a song while they are given their notes, and the strategies that pick a channel for a
note.
-/
namespace Buzzer

namespace Midi

/-- How a channel is picked for a note. -/
inductive Strategy where
  /-- The channel that plays, or played last, the closest note. -/
  | closest
  /-- The channel whose notes are the closest on average. -/
  | closestAverage
  /-- The first free channel. -/
  | firstFit
  /-- The first free channel of those with the narrowest range. -/
  | firstFitNarrowest
  /-- The first of the strategies above that gives every note a channel. -/
  | auto
  /-- The one of them that makes the smallest song. -/
  | smallest
  /-- The one of them that uses the fewest channels. -/
  | fewestChannels
  deriving DecidableEq

namespace Strategy

/-- The strategies that pick channels themselves, in the order in which the others try them. -/
def simple : List Strategy := [closest, closestAverage, firstFitNarrowest, firstFit]

def ofName? : String → Option Strategy
  | "closest" => some closest
  | "closest-average" => some closestAverage
  | "first-fit" => some firstFit
  | "first-fit-narrowest" => some firstFitNarrowest
  | "auto" => some auto
  | "smallest" => some smallest
  | "fewest-channels" => some fewestChannels
  | _ => none

def label : Strategy → String
  | closest => "Closest"
  | closestAverage => "ClosestAverage"
  | firstFit => "FirstFit"
  | firstFitNarrowest => "FirstFitNarrowest"
  | auto => "Auto"
  | smallest => "Smallest"
  | fewestChannels => "FewestChannels"

end Strategy

/-- A channel while it is given its notes. -/
structure Voice where
  /-- The pitches that it can play. -/
  range : PitchRange
  /-- Its notes so far with their lengths in frames, the latest first. -/
  runs : List Event := []
  /-- The MIDI track that it plays. -/
  owner : Option Nat := none
  /-- The sum of the pitches of all frames, and their number, as words. -/
  pitchSum : UInt32 := 0
  pitchCount : UInt32 := 0

namespace Voice

/-- Appends a frame. A note that goes on is made longer, up to the longest duration. -/
def extend (note : Note) : List Event → List Event
  | last :: earlier =>
    if last.note = note ∧ last.ticks < maxDuration then
      { last with ticks := last.ticks + 1 } :: earlier
    else ⟨note, 1⟩ :: last :: earlier
  | [] => [⟨note, 1⟩]

/-- A frame without a note. -/
def rest (voice : Voice) : Voice := { voice with runs := extend .rest voice.runs }

/-- A frame with a note of a MIDI track. The first track that a channel plays owns it. -/
def sing (voice : Voice) (track pitch : Nat) : Voice :=
  { voice with
    runs := extend (.tone pitch) voice.runs
    owner := voice.owner.or (some track)
    pitchSum := voice.pitchSum + UInt32.ofNat pitch
    pitchCount := voice.pitchCount + 1 }

/-- Whether the channel can take a note. Unless tracks are merged, it only takes notes of the track
that owns it. -/
def takes (voice : Voice) (merge : Bool) (track pitch : Nat) : Bool :=
  voice.range.contains pitch && (merge || voice.owner.all (· = track))

/-- The pitch that is playing, or was before the rest that is. -/
def lastPitch? (voice : Voice) : Option Nat :=
  match voice.runs with
  | ⟨.rest, _⟩ :: before :: _ => before.note.pitch?
  | last :: _ => last.note.pitch?
  | [] => none

def averagePitch? (voice : Voice) : Option Float :=
  if voice.pitchCount = 0 then none
  else some (voice.pitchSum.toFloat / voice.pitchCount.toFloat)

def distance (first second : Nat) : Nat := (first - second) + (second - first)

end Voice

/-- A channel that may be picked, with its number. -/
structure Candidate where
  number : Nat
  voice : Voice

namespace Candidate

/-- How far a pitch is from the last of the channel, if there is one. -/
def distance? (pitch : Nat) (candidate : Candidate) : Option Nat :=
  candidate.voice.lastPitch?.map (Voice.distance pitch)

/-- Whether a distance is less than another. No distance is greater than any. -/
def isNearer : Option Nat → Option Nat → Bool
  | some first, some second => first < second
  | some _, none => true
  | none, _ => false

/-- Whether a channel is kept when another is compared with it: it is nearer, or as near and has
changed notes as often. -/
def keeps (pitch : Nat) (best next : Candidate) : Bool :=
  let held := best.distance? pitch
  let offered := next.distance? pitch
  isNearer held offered ||
    held = offered && next.voice.runs.length ≤ best.voice.runs.length

/-- How far a pitch is from the average of the channel. -/
def averageDistance (pitch : Nat) (candidate : Candidate) : Float :=
  candidate.voice.averagePitch?.elim (1 / 0) fun average => (average - Float.ofNat pitch).abs

end Candidate

/-- Picks one of some channels for a pitch. Until a frame is complete it is the first that fits. -/
def Strategy.choose (strategy : Strategy) (pitch : Nat) (first : Candidate)
    (others : List Candidate) : Candidate :=
  let started := !first.voice.runs.isEmpty
  match strategy with
  | .closest =>
    if started then
      others.foldl (fun best next => if best.keeps pitch next then best else next) first
    else first
  | .closestAverage =>
    if started then
      (others.foldl (fun (best, least) next =>
        let distance := next.averageDistance pitch
        if distance < least then (next, distance) else (best, least))
        (first, first.averageDistance pitch)).1
    else first
  | .firstFitNarrowest =>
    let size (candidate : Candidate) : Nat := candidate.voice.range.size
    others.foldl (fun best next => if size next < size best then next else best) first
  | _ => first

end Midi

end Buzzer
