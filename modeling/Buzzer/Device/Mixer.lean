import Buzzer.Error

/-!
Mixing the waves of several channels into the duty cycle of one output. The level has one bit per
channel, set in the high half of its wave, and the volume in the two bits above them. It is the place
of the duty cycle in a table.
-/
namespace Buzzer

/-- A level with one bit cleared. -/
def clearBit (level bit : Nat) : Nat := if level.testBit bit then level ^^^ 1 <<< bit else level

namespace Levels

/-- The bits of a level above those of the channels. -/
def volumeBits : Nat := 2

/-- Whether an entry is lower than with one channel less. -/
def isLowered (channels : Nat) (levels : Array UInt8) (index : Nat) : Bool :=
  (List.range channels).any fun bit =>
    let level := UInt64.ofNat index
    let mask : UInt64 := 1 <<< UInt64.ofNat bit
    level &&& mask ≠ 0 && levels.getD level.toNat 0 < levels.getD (level &&& ~~~mask).toNat 0

/-- The number of levels, as a word. A shift by more places than a word has starts over. -/
def expected (channels : Nat) : Nat :=
  ((1 : UInt64) <<< (UInt64.ofNat channels + UInt64.ofNat volumeBits)).toNat

/-- Checks that a table has an entry for every level, and that none is lower than with one channel
less. -/
def check (channels : Nat) (levels : Array UInt8) : Except SongError Unit :=
  if levels.size ≠ expected channels then .error (.levelTableLength (expected channels))
  else
    match (List.range (expected channels)).find? (isLowered channels levels) with
    | some index => .error (.levelTableOrder index)
    | none => .ok ()

end Levels

/-- The mixer of a number of channels. Its volume and its level fit into bytes if there are at most six of
them. -/
structure Mixer where
  channels : Nat
  levels : Array UInt8
  volume : Nat
  level : Nat
  /-- The duty cycle last written to the output. -/
  duty : Option UInt8

namespace Mixer

/-- A mixer with every channel off and no duty cycle written. Only the two low bits of `volume` are
used. -/
def start (channels : Nat) (levels : Array UInt8) (volume : UInt8) : Mixer :=
  let volume := volume.toNat % (1 <<< Levels.volumeBits)
  { channels, levels, volume, level := volume <<< channels, duty := none }

/-- The bits of the channels that are in the high half of their wave. -/
def channelBits (mixer : Mixer) : Nat := mixer.level % (1 <<< mixer.channels)

/-- Writes the duty cycle of a level and takes the level over, unless the table has no such entry. -/
def store (mixer : Mixer) (level : Nat) : Option Mixer :=
  (mixer.levels[level]?).map fun duty => { mixer with level, duty := some duty }

/-- Turns every channel off. -/
def reset (mixer : Mixer) : Option Mixer := mixer.store (mixer.volume <<< mixer.channels)

/-- Turns one channel off. -/
def silence (mixer : Mixer) (channel : Nat) : Option Mixer :=
  mixer.store (clearBit mixer.level channel)

/-- Starts the other half of one channel's wave. -/
def flip (mixer : Mixer) (channel : Nat) : Option Mixer := mixer.store (mixer.level ^^^ 1 <<< channel)

end Mixer

end Buzzer
