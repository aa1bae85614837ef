/-!
What can be wrong with a song, a target or the tracks of a song being written.
-/
namespace Buzzer

/-- The causes for which a song, a level table or a track is refused. -/
inductive SongError where
  | empty
  | truncated (offset : Nat)
  | channelOrder (channel : UInt8)
  | trackLength (channel : UInt8)
  | durationOffset (channel : UInt8)
  | missingTrackEnd (channel : UInt8)
  | durationOverrun (channel : UInt8)
  | channelOutOfRange (channel : UInt8)
  | noteOutOfRange (channel : UInt8) (pitch : Nat)
  | levelTableLength (expected : Nat)
  | levelTableOrder (index : Nat)
  | durationTooLong (ticks : Nat)
  | trackTooLong (channel : UInt8)
  | sampleRate
  deriving DecidableEq

/-- The text shown to a user. -/
def SongError.message : SongError → String
  | empty => "Song data is empty"
  | truncated offset => s!"Track block header at offset {offset} is truncated"
  | channelOrder channel => s!"Track block for channel {channel} is out of order"
  | trackLength channel => s!"Invalid track length for channel {channel}"
  | durationOffset channel => s!"Invalid duration offset for channel {channel}"
  | missingTrackEnd channel => s!"Missing end of track for channel {channel}"
  | durationOverrun channel => s!"Duration data overrun for channel {channel}"
  | channelOutOfRange channel => s!"Channel {channel} is not available on this target"
  | noteOutOfRange channel pitch => s!"Note {pitch} cannot be played on channel {channel}"
  | levelTableLength expected => s!"Output level table must have {expected} entries"
  | levelTableOrder index => s!"Output level {index} is lower than with one channel less"
  | durationTooLong ticks => s!"Note duration of {ticks} ticks cannot be encoded"
  | trackTooLong channel => s!"Track for channel {channel} is too long to be encoded"
  | sampleRate => "Sample rate must not be zero"

/-- Why an operation that may meet unchecked data gives no result: the data is refused, or it
leads past the end of the song or of a table. -/
inductive Failure where
  | refused (error : SongError)
  | fault
  deriving DecidableEq

end Buzzer
