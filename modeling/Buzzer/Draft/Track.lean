import Buzzer.Error
import Buzzer.Song.Basic

/-!
Writing the track of one channel. Rests in a row are joined while the track is put together. When it
is written, short rests go into the note array, and a rest of one chosen length into the byte of the
tone before it.
-/
namespace Buzzer

/-- The most ticks that an event of a track being written can hold. -/
def maxTicks : Nat := 0xffff

/-- The most bytes in a block. -/
def maxBlock : Nat := 0xffff

/-- The longest pause that can follow a tone in its byte. -/
def maxFoldedPause : Nat := 0x100

/-- The track of one channel while it is put together. -/
structure TrackDraft where
  channel : UInt8
  /-- The events so far, the latest first. -/
  latest : List Event := []
  /-- The chosen length of the rests that are folded into the tone before them. -/
  pause : Option Nat := none

namespace TrackDraft

/-- The events in the order in which they are played. -/
def events (draft : TrackDraft) : List Event := draft.latest.reverse

/-- Appends an event, unless it has no length. -/
def push (draft : TrackDraft) (note : Note) (ticks : Nat) : TrackDraft :=
  if ticks = 0 then draft else { draft with latest := ⟨note, ticks⟩ :: draft.latest }

/-- Appends a note. A rest fills up the rest before it and goes on in an event of its own. -/
def add (draft : TrackDraft) (note : Note) (ticks : Nat) : TrackDraft :=
  match draft.latest with
  | last :: earlier =>
    if last.note.isRest && note.isRest then
      let joined := min ticks (maxTicks - last.ticks)
      let filled := { last with ticks := last.ticks + joined }
      push { draft with latest := filled :: earlier } note (ticks - joined)
    else draft.push note ticks
  | [] => draft.push note ticks

def addAll (draft : TrackDraft) (events : List Event) : TrackDraft :=
  events.foldl (fun draft event => draft.add event.note event.ticks) draft

/-- Chooses the pause that is folded into the tone before it. -/
def withPause (draft : TrackDraft) (ticks : Nat) : TrackDraft :=
  { draft with pause := some (min (max ticks 1) maxFoldedPause) }

/-- The lengths of the rests that follow a tone and could be folded into it. -/
def foldablePauses : List Event → List Nat
  | before :: after :: later =>
    let pauses := foldablePauses (after :: later)
    if !before.note.isRest && after.note.isRest && after.ticks ≤ maxFoldedPause then
      after.ticks :: pauses
    else pauses
  | _ => []

/-- The most common length, the shortest of several, and 1 if there is none. -/
def commonPause (pauses : List Nat) : Nat :=
  let better (best ticks : Nat) := if pauses.count best < pauses.count ticks then ticks else best
  (List.range' 1 maxFoldedPause).foldl better 1

/-- The length of the rests that are folded into the tone before them. -/
def foldedPause (draft : TrackDraft) : Nat :=
  draft.pause.getD (commonPause (foldablePauses draft.events))

/-- The first tone that cannot be written, by its pitch or else by its length. -/
def checkEvents (channel : UInt8) : List Event → Except SongError Unit
  | [] => .ok ()
  | ⟨.tone pitch, ticks⟩ :: later =>
    if playablePitches ≤ pitch then .error (.noteOutOfRange channel pitch)
    else if maxDuration < ticks then .error (.durationTooLong ticks)
    else checkEvents channel later
  | ⟨.rest, _⟩ :: later => checkEvents channel later

/-- A note as it is written: its code, and its duration if the code takes one. -/
structure Written where
  code : NoteCode
  ticks : Option Nat

/-- A rest as it is written: pieces of at most the longest duration while it is too long for a
pause, then a pause. -/
def writtenRest (ticks : Nat) : List Written :=
  if _long : NoteCode.maxPause < ticks then
    let part := min ticks maxDuration
    ⟨.timed .rest false, some part⟩ :: writtenRest (ticks - part)
  else if 0 < ticks then [⟨.pause ticks, none⟩]
  else []
termination_by ticks
decreasing_by
  simp only [NoteCode.maxPause, NoteCode.stopByte, NoteCode.pauseBase] at _long
  simp only [maxDuration]
  omega

/-- Events as they are written, where rests of `pause` ticks are folded into the tone before
them. -/
def written (pause : Nat) : List Event → List Written
  | [] => []
  | ⟨.rest, ticks⟩ :: later => writtenRest ticks ++ written pause later
  | ⟨note, ticks⟩ :: ⟨.rest, resting⟩ :: later =>
    if resting = pause then ⟨.timed note true, some ticks⟩ :: written pause later
    else ⟨.timed note false, some ticks⟩ :: written pause (⟨.rest, resting⟩ :: later)
  | ⟨note, ticks⟩ :: later => ⟨.timed note false, some ticks⟩ :: written pause later

def noteBytes (written : List Written) : List UInt8 :=
  written.map (·.code.toByte) ++ [NoteCode.stop.toByte]

def durationBytes (written : List Written) : List UInt8 :=
  Durations.encode ((written.filterMap Written.ticks).map (· - 1))

def wordBytes (value : Nat) : List UInt8 := [UInt8.ofNat value, UInt8.ofNat (value / 0x100)]

/-- Writes the block of the track. -/
def encode (draft : TrackDraft) : Except SongError (List UInt8) := do
  if draft.channel = songEnd then throw (.channelOutOfRange draft.channel)
  checkEvents draft.channel draft.events
  let pause := draft.foldedPause
  let written := written pause draft.events
  let notes := noteBytes written
  let durations := durationBytes written
  let durationOffset := headerLength + notes.length
  let length := durationOffset + durations.length
  if maxBlock < length then throw (.trackTooLong draft.channel)
  return draft.channel :: wordBytes length ++ wordBytes durationOffset ++
    UInt8.ofNat (pause - 1) :: notes ++ durations

end TrackDraft

end Buzzer
