import Buzzer.Song.Basic

/-!
Playing a song tick by tick. On every tick each channel either spends a tick of its current event or
reads the next one, and what changed is reported in the order of the channels.
-/
namespace Buzzer

/-- What a listener is told about one channel. -/
inductive Change where
  | note (channel : Nat) (note : Note)
  | trackEnd (channel : Nat)
  deriving DecidableEq

namespace Change

def channel : Change → Nat
  | note channel _ => channel
  | trackEnd channel => channel

/-- The change as a listener hears it that has no use for track ends: an end silences its channel. -/
def asNote : Change → Change
  | trackEnd channel => note channel .rest
  | change => change

end Change

namespace Cursor

/-- Plays one tick of a channel, unless that needs a byte past the end of the song. -/
def tick (channel : Nat) (cursor : Cursor) : Option (Cursor × List Change) :=
  if cursor.isEnded then some (cursor, [])
  else if 0 < cursor.left then some ({ cursor with left := cursor.left - 1 }, [])
  else
    match cursor.next with
    | .event event next => some (next, [.note channel event.note])
    | .finish next => some (next, [.trackEnd channel])
    | .overrun => none

/-- The ticks that are still to be played: those of the current event and of the events after it,
and one more for the end of the track. -/
def ticksLeft (cursor : Cursor) : Nat :=
  if cursor.isEnded then 0 else cursor.left + Event.total cursor.reading.events + 1

end Cursor

/-- A song being played on a number of channels, with one track for each. -/
structure Playback where
  tempo : UInt8
  tracks : List Cursor

/-- One tick of a playback. -/
structure Tick where
  next : Playback
  changes : List Change
  /-- Whether any track was still playing when the tick began. -/
  played : Bool

namespace Playback

/-- The tracks of `count` channels from `channel` on. Each takes the first block left if that block
is its own, so blocks of channels that are not played are never reached. -/
def seat (channel : Nat) (blocks : List Block) : (count : Nat) → Option (List Cursor)
  | 0 => some []
  | count + 1 =>
    match blocks with
    | block :: later =>
      if block.channel.toNat = channel then do
        let cursor ← block.cursor?
        return cursor :: (← seat (channel + 1) later count)
      else (seat (channel + 1) blocks count).map (.ended :: ·)
    | [] => (seat (channel + 1) [] count).map (.ended :: ·)

/-- The start of a song on a number of channels, unless the song has no tempo or ends within the
header of a block it needs. -/
def start (song : Song) (channels : Nat) : Option Playback := do
  let tracks ← seat 0 song.blocks channels
  return ⟨← song.tempo?, tracks⟩

def isPlaying (playback : Playback) : Bool := playback.tracks.any (!·.isEnded)

/-- Plays one tick of the tracks of the channels from `channel` on. -/
def tickFrom (channel : Nat) : List Cursor → Option (List Cursor × List Change)
  | [] => some ([], [])
  | cursor :: cursors => do
    let (cursor, changes) ← cursor.tick channel
    let (cursors, later) ← tickFrom (channel + 1) cursors
    return (cursor :: cursors, changes ++ later)

def tick (playback : Playback) : Option Tick := do
  let (tracks, changes) ← tickFrom 0 playback.tracks
  return ⟨{ playback with tracks }, changes, playback.isPlaying⟩

/-- The ticks until every track has ended. -/
def ticksLeft (playback : Playback) : Nat := (playback.tracks.map Cursor.ticksLeft).foldl max 0

end Playback

end Buzzer
