import Buzzer.Draft.Track

/-!
Writing a song from the tracks of its channels.
-/
namespace Buzzer

/-- A song while it is put together. -/
structure SongDraft where
  tempo : UInt8
  tracks : List TrackDraft := []

namespace SongDraft

/-- The tracks in the order of their channels. -/
def sorted (draft : SongDraft) : List TrackDraft :=
  draft.tracks.mergeSort (·.channel ≤ ·.channel)

/-- The first channel, in an ordered list, that comes twice in a row. -/
def repeated? : List UInt8 → Option UInt8
  | first :: second :: later =>
    if first = second then some second else repeated? (second :: later)
  | _ => none

/-- Writes the song, with one block per track in the order of their channels. -/
def encode (draft : SongDraft) : Except SongError (List UInt8) := do
  let tracks := draft.sorted
  if let some channel := repeated? (tracks.map TrackDraft.channel) then
    throw (.channelOrder channel)
  let blocks ← tracks.mapM TrackDraft.encode
  return draft.tempo :: blocks.flatten ++ [songEnd]

end SongDraft

end Buzzer
