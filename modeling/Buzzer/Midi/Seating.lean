import Buzzer.Draft.Track
import Buzzer.Midi.Frame
import Buzzer.Midi.Strategy

/-!
Giving the notes of a MIDI file to channels, frame by frame. Every note of a frame gets a channel of
its own, and the channels without a note rest.
-/
namespace Buzzer

namespace Midi

/-- A channel in the course of a frame. -/
structure Seat where
  voice : Voice
  /-- Whether the channel has no note in the frame yet. -/
  free : Bool

namespace Seat

/-- The channel at the start of the frame after. -/
def next (seat : Seat) : Seat :=
  { voice := if seat.free then seat.voice.rest else seat.voice, free := true }

/-- The free channels that can take a note of a track, where the first of `seats` has the given
number. -/
def candidates (merge : Bool) (track pitch number : Nat) : (seats : List Seat) → List Candidate
  | [] => []
  | seat :: seats =>
    let others := candidates merge track pitch (number + 1) seats
    if seat.free && seat.voice.takes merge track pitch then ⟨number, seat.voice⟩ :: others
    else others

/-- Gives a note of a track to the channel of a number. -/
def sing (track pitch : Nat) : (number : Nat) → List Seat → List Seat
  | _, [] => []
  | 0, seat :: seats => { voice := seat.voice.sing track pitch, free := false } :: seats
  | number + 1, seat :: seats => seat :: sing track pitch number seats

end Seat

/-- Gives a note of a track to one of the channels that can take it, if there is one. -/
def seatNote? (strategy : Strategy) (merge : Bool) (track : Nat) (seats : List Seat) (pitch : Nat) :
    Option (List Seat) :=
  match Seat.candidates merge track pitch 0 seats with
  | [] => none
  | first :: others =>
    some (Seat.sing track pitch (strategy.choose pitch first others).number seats)

/-- Gives the notes of a frame channels, where the first of its tracks has the given number. -/
def seatNotes? (strategy : Strategy) (merge : Bool) (track : Nat) (seats : List Seat) :
    Frame Nat → Option (List Seat)
  | [] => some seats
  | pitches :: later => do
    let seats ← pitches.foldlM (seatNote? strategy merge track) seats
    seatNotes? strategy merge (track + 1) seats later

/-- Gives every note of a frame a channel, and the other channels a rest. -/
def seatFrame? (strategy : Strategy) (merge : Bool) (seats : List Seat) (frame : Frame Nat) :
    Option (List Seat) := do
  return (← seatNotes? strategy merge 0 seats frame).map Seat.next

/-- The channels before the first frame. -/
def emptySeats (channels : List Channel) : List Seat :=
  channels.map fun channel => { voice := { range := channel.range }, free := true }

/-- The tracks of the voices that play anything, without the rests at their ends. -/
def draftTracks (voices : List Voice) : List TrackDraft :=
  voices.zipIdx.filterMap fun (voice, number) =>
    let runs := (voice.runs.dropWhile (·.note.isRest)).reverse
    if runs.isEmpty then none
    else some (({ channel := UInt8.ofNat number } : TrackDraft).addAll runs)

/-- Gives every note of every frame a channel, if that is possible. -/
def assign? (strategy : Strategy) (channels : List Channel) (merge : Bool)
    (frames : List (Frame Nat)) : Option (List TrackDraft) := do
  let seats ← frames.foldlM (seatFrame? strategy merge) (emptySeats channels)
  return draftTracks (seats.map Seat.voice)

end Midi

end Buzzer
