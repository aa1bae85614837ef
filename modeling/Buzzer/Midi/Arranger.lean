import Buzzer.Decimal.Fixed
import Buzzer.Draft.Song
import Buzzer.Midi.Seating
import Buzzer.Target.Basic

/-!
Arranging MIDI files as songs for a target: every note of every frame is given a free channel that
can play it.
-/
namespace Buzzer

namespace Midi

/-- Why a MIDI file cannot be arranged. -/
inductive ArrangeError where
  | unreadable
  | timing
  | tooManyNotes (notes channels : Nat)
  | noteOutOfRange (key : Nat) (seconds : Float)
  | unassignable (strategy : Strategy)
  | song (error : SongError)

/-- The text shown to a user. -/
def ArrangeError.message : ArrangeError → String
  | unreadable => "Invalid MIDI file"
  | timing => "Only MIDI files timed in ticks per beat are supported"
  | tooManyNotes notes channels =>
    s!"{notes} notes are played at once, but only {channels} channels are available"
  | noteOutOfRange key seconds =>
    s!"MIDI note {key} at {Decimal.fixed 2 seconds} s cannot be played on any channel"
  | unassignable strategy =>
    s!"Notes cannot be assigned to channels with the {strategy.label} strategy"
  | song _ => "Song error"

/-- A target's channels, and how files are arranged for them. -/
structure Arranger where
  channels : List Channel
  strategy : Strategy := .auto
  /-- The tempo to play at instead of the average of the file. -/
  bpm : Option Float := none
  octave : Int := 0
  /-- Whether notes of several MIDI tracks can share a channel. -/
  mergeTracks : Bool := false

/-! The notes that can be played. -/

/-- The most notes that sound at once. -/
def mostNotes (frames : List (Frame Int)) : Nat :=
  (frames.map fun frame => frame.flatten.length).foldl max 0

/-- A note that cannot be played, and the frame in which it is the first. -/
structure Unplayable where
  frame : Nat
  pitch : Int

/-- Whether some channel can play a pitch. -/
def isPlayable (channels : List Channel) (pitch : Int) : Bool :=
  0 ≤ pitch && pitch.toNat < playablePitches &&
    channels.any (·.range.contains pitch.toNat)

/-- The first note of a track that cannot be played. -/
def firstUnplayable? (channels : List Channel) (part : Part Int) : Option Unplayable :=
  part.zipIdx.findSome? fun (pitches, frame) =>
    (pitches.find? (!isPlayable channels ·)).map (⟨frame, ·⟩)

/-- The key of a pitch before it was transposed, as a byte. -/
def keyOf (transpose pitch : Int) : Nat := ((pitch + lowestKey - transpose) % 0x100).toNat

/-- The time at which a frame begins, in seconds, where a beat has `beatMicros`. -/
def frameSeconds (beatMicros : Float) (frame : Nat) : Float :=
  Float.ofNat frame * beatMicros / Float.ofNat ticksPerBeat / 1000000

/-- Checks that there are never more notes than channels, then track by track that every note can
be played. -/
def checkNotes (channels : List Channel) (beatMicros : Float) (transpose : Int)
    (parts : List (Part Int)) : Except ArrangeError (List (Part Nat)) :=
  let most := mostNotes (framesOf parts)
  if channels.length < most then .error (.tooManyNotes most channels.length)
  else
    match parts.findSome? (firstUnplayable? channels) with
    | some unplayable =>
      .error (.noteOutOfRange (keyOf transpose unplayable.pitch)
        (frameSeconds beatMicros unplayable.frame))
    | none => .ok (parts.map (·.map (·.map Int.toNat)))

/-! Choosing among strategies. -/

/-- The bytes that tracks take in a song. -/
def encodedSize (tracks : List TrackDraft) : Except SongError Nat := do
  return (← tracks.mapM TrackDraft.encode).flatten.length

/-- Whether a pair comes before another. -/
def precedes (first second : Nat × Nat) : Bool :=
  first.1 < second.1 || first.1 = second.1 && first.2 < second.2

/-- Tracks and how they compare with others. -/
structure Ranked where
  tracks : List TrackDraft
  rank : Nat × Nat

/-- The tracks of the lowest rank, the earliest of several. -/
def lowestRank (rank : List TrackDraft → Except SongError (Nat × Nat)) :
    Option Ranked → List (List TrackDraft) → Except SongError (Option Ranked)
  | best, [] => .ok best
  | best, tracks :: later => do
    let ranked : Ranked := ⟨tracks, ← rank tracks⟩
    match best with
    | none => lowestRank rank (some ranked) later
    | some held =>
      lowestRank rank (some (if precedes ranked.rank held.rank then ranked else held)) later

def smallestRank (tracks : List TrackDraft) : Except SongError (Nat × Nat) := do
  return (← encodedSize tracks, tracks.length)

def fewestChannelsRank (tracks : List TrackDraft) : Except SongError (Nat × Nat) := do
  return (tracks.length, ← encodedSize tracks)

/-- The tracks that the strategies which pick channels themselves come to. -/
def candidateTracks (channels : List Channel) (merge : Bool) (frames : List (Frame Nat)) :
    List (List TrackDraft) :=
  Strategy.simple.filterMap fun strategy => assign? strategy channels merge frames

/-- The tracks of the lowest rank that the strategies which pick channels themselves come to. -/
def bestTracks? (rank : List TrackDraft → Except SongError (Nat × Nat)) (channels : List Channel)
    (merge : Bool) (frames : List (Frame Nat)) : Except SongError (Option (List TrackDraft)) :=
  (lowestRank rank none (candidateTracks channels merge frames)).map (·.map Ranked.tracks)

/-- Gives the notes channels with any strategy. -/
def assignChannels (strategy : Strategy) (channels : List Channel) (merge : Bool)
    (frames : List (Frame Nat)) : Except ArrangeError (List TrackDraft) :=
  let found : Except SongError (Option (List TrackDraft)) :=
    match strategy with
    | .auto => .ok (Strategy.simple.findSome? (assign? · channels merge frames))
    | .smallest => bestTracks? smallestRank channels merge frames
    | .fewestChannels => bestTracks? fewestChannelsRank channels merge frames
    | strategy => .ok (assign? strategy channels merge frames)
  match found with
  | .error error => .error (.song error)
  | .ok none => .error (.unassignable strategy)
  | .ok (some tracks) => .ok tracks

namespace Arranger

variable [FloatLibrary]

/-- An arranger for a target, with no wishes. -/
def ofTarget (target : Target) : Arranger := { channels := target.channels }

/-- Arranges the note events of a file's tracks, once their frames have been bounded. -/
def arrangeFrames (arranger : Arranger) (beatMicros : Float) (bounds : List Nat)
    (notes : List (List NoteEvent)) : Except ArrangeError SongDraft := do
  let transpose := arranger.octave * 12
  let parts ← checkNotes arranger.channels beatMicros transpose
    (notes.map (pitchPart bounds transpose))
  let tracks ← assignChannels arranger.strategy arranger.channels arranger.mergeTracks
    (framesOf parts)
  return { tempo := Tempo.ofBpm (arranger.bpm.getD (60000000 / beatMicros)), tracks }

/-- Arranges a MIDI file. -/
def arrange [Reader] (arranger : Arranger) (bytes : List UInt8) : Except ArrangeError SongDraft := do
  let some file := Reader.file? bytes | throw .unreadable
  let .ticksPerBeat units := file.timing | throw .timing
  if units = 0 then throw .timing
  let timeline := Timeline.ofFile file
  let beatMicros := timeline.tempos.average timeline.duration
  let bounds := timeline.tempos.frameBounds beatMicros units timeline.duration
  arranger.arrangeFrames beatMicros bounds timeline.notes

end Arranger

end Midi

end Buzzer
