import Buzzer.Device.Basic

/-!
The microcontrollers that songs are played on, and the check that a song can be played on one.
-/
namespace Buzzer

/-- Everything needed to play songs on one microcontroller. -/
structure Target where
  channels : List Channel
  /-- The duty cycle of every level. -/
  levels : Array UInt8
  /-- The top value of the output's timer; a duty cycle is a part of it. -/
  pwmTop : UInt8
  /-- The volume, from 0 to 3. -/
  volume : UInt8

namespace Target

/-- The target as a device with every timer stopped. -/
def device (target : Target) : Device :=
  { oscillators := target.channels.map fun channel => { channel }
    mixer := Mixer.start target.channels.length target.levels target.volume }

def checkLevels (target : Target) : Except SongError Unit :=
  Levels.check target.channels.length target.levels

/-- Checks that a channel exists and can play every pitch of a song's track. A track that runs past
the end of the song is at fault, but only after an unplayable pitch before that. -/
def checkChannel (target : Target) (song : Song) (channel : UInt8) : Except Failure Unit :=
  match target.channels[channel.toNat]? with
  | none => .error (.refused (.channelOutOfRange channel))
  | some settings =>
    let reading := song.reading channel
    let pitches := reading.events.filterMap (·.note.pitch?)
    match pitches.find? fun pitch => (settings.period? pitch).isNone with
    | some pitch => .error (.refused (.noteOutOfRange channel pitch))
    | none => if reading.complete then .ok () else .error .fault

/-- Checks that the target has every channel of a song, and that it can play every note. -/
def check (target : Target) (song : Song) : Except Failure Unit :=
  song.channels.forM (target.checkChannel song)

end Target

end Buzzer
