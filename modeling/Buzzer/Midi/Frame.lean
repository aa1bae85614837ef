import Buzzer.Midi.Timeline

/-!
What sounds in every frame of a MIDI file. A frame is one tick of a song. It holds the keys that
sound at its end and those that were struck in it, so a note that is over within a frame lasts for
the whole of it. Every track is cut into frames on its own.
-/
namespace Buzzer

namespace Midi

/-- Something for every note of one track: the inner lists are the frames. -/
abbrev Part (α : Type) : Type := List (List α)

/-- Something for every note of one frame: the inner lists are the tracks. -/
abbrev Frame (α : Type) : Type := List (List α)

/-- The key of the lowest pitch. -/
def lowestKey : Int := 36

/-- The keys of a track that are down in the course of a frame. -/
structure Keys where
  /-- In the order in which they were struck. -/
  down : List Nat
  /-- Those of them that were struck in this frame. -/
  struck : List Nat
  /-- Those of the struck ones that are over, but are kept until the end of the frame. -/
  finished : List Nat

namespace Keys

/-- Takes an event into account. A key that is struck while it is down goes up. -/
def hear (keys : Keys) (event : NoteEvent) : Keys :=
  if keys.down.contains event.key then
    if keys.struck.contains event.key then { keys with finished := keys.finished.insert event.key }
    else { keys with down := keys.down.erase event.key }
  else if event.on then
    { keys with
      down := keys.down ++ [event.key]
      struck := event.key :: keys.struck }
  else keys

/-- The keys that are down at the start of the next frame. -/
def released (keys : Keys) : List Nat := keys.down.filter (!keys.finished.contains ·)

end Keys

/-- The frames of a track that end at `bounds`, after those of `earlier`, the latest of which comes
first. The keys in `down` are down before them. -/
def framesFrom (earlier : Part Nat) (down : List Nat) (events : List NoteEvent) :
    (bounds : List Nat) → Part Nat
  | [] => earlier.reverse
  | bound :: bounds =>
    let (now, later) := events.span (·.time < bound)
    let keys := now.foldl Keys.hear ⟨down, [], []⟩
    framesFrom (keys.down :: earlier) keys.released later bounds

/-- The keys of a track that sound in every frame between the bounds. -/
def keyPart (bounds : List Nat) (events : List NoteEvent) : Part Nat :=
  framesFrom [] [] events (bounds.drop 1)

/-- The pitch of a key after transposing it by semitones. It can be out of any range. -/
def pitchOf (transpose : Int) (key : Nat) : Int := key - lowestKey + transpose

/-- The pitches of a track that sound in every frame between the bounds. -/
def pitchPart (bounds : List Nat) (transpose : Int) (events : List NoteEvent) : Part Int :=
  (keyPart bounds events).map (·.map (pitchOf transpose))

/-- The number of frames that tracks were cut into. -/
def frameCount {α : Type} (parts : List (Part α)) : Nat := parts.head?.elim 0 List.length

/-- The frames of all tracks together. -/
def framesOf {α : Type} (parts : List (Part α)) : List (Frame α) :=
  parts.foldr (List.zipWith List.cons) (List.replicate (frameCount parts) [])

end Midi

end Buzzer
