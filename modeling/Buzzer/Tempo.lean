import Buzzer.FloatLibrary

/-!
Ticks and tempo. Time is counted in ticks, and a tempo byte is the number of slices of 256 µs in a
tick, minus one.
-/
namespace Buzzer

/-- The length of one slice of a tick, in microseconds. -/
def sliceMicros : Nat := 256

/-- The slices by which a busy wait falls short of its tick, for the time spent decoding notes. -/
def waitAdjust : Int := -1

def ticksPerBeat : Nat := 16

namespace Tempo

/-- The length of a tick, in microseconds. -/
def tickMicros (tempo : UInt8) : Nat := sliceMicros * (tempo.toNat + 1)

/-- Beats per minute. -/
def bpm (tempo : UInt8) : Float32 := 60000000 / Float32.ofNat (tickMicros tempo * ticksPerBeat)

/-- The tempo closest to a number of beats per minute, and tempo 0 for no number. -/
def ofBpm [FloatLibrary] (bpm : Float) : UInt8 :=
  let slices := 60000000 / (bpm * Float.ofNat (ticksPerBeat * sliceMicros))
  let tempo := FloatLibrary.round slices - 1
  if 255 ≤ tempo then 255 else if 0 < tempo then tempo.toUInt8 else 0

/-- The slices that a busy wait delays for one tick. -/
def waitSlices (tempo : UInt8) : Nat := ((tempo.toNat : Int) + waitAdjust).toNat

end Tempo

end Buzzer
