import Buzzer.Device.Oscillator
import Buzzer.FloatLibrary

/-!
The frequencies of pitches, the timer periods that come close to them, and by how much those miss.
-/
namespace Buzzer

namespace Pitch

/-- A4, which has 440 Hz. -/
def reference : Nat := 33

variable [FloatLibrary]

/-- The frequency of a pitch in equal temperament, in Hz. -/
def frequency (pitch : Nat) : Float :=
  let semitone := FloatLibrary.power 2 (1 / 12)
  440 * FloatLibrary.power semitone (Float.ofNat pitch - Float.ofNat reference)

/-- The period of a timer that interrupts twice per wave of a pitch, if a timer can hold it. -/
def period? (timerClock : UInt32) (pitch : Nat) : Option UInt16 :=
  let halfWave := timerClock.toFloat / frequency pitch / 2
  let period := FloatLibrary.round halfWave - 1
  if period < 0 || 65535 < period then none else some period.toUInt16

/-- The frequency that a period gives, in Hz. -/
def playedFrequency (timerClock : UInt32) (period : UInt16) : Float :=
  timerClock.toFloat / (2 * (period.toFloat + 1))

/-- How far a frequency is above a pitch, in cents. -/
def cents (pitch : Nat) (played : Float) : Float := 1200 * FloatLibrary.log2 (played / frequency pitch)

/-- The values of a partial function from `first` on, up to `past` or to the first gap. -/
def valuesFrom {α : Type} (value? : Nat → Option α) (first past : Nat) : List α :=
  if first < past then
    match value? first with
    | some value => value :: valuesFrom value? (first + 1) past
    | none => []
  else []
termination_by past - first

/-- The periods of at most `cap` pitches from `lowest` on, up to the last playable pitch or to the
first that has none. -/
def table (period? : Nat → Option UInt16) (lowest cap : Nat) : List UInt16 :=
  (valuesFrom period? lowest playablePitches).take cap

/-- The table of a timer, which ends where it cannot hold a period. -/
def periods (timerClock : UInt32) (lowest cap : Nat) : List UInt16 :=
  table (period? timerClock) lowest cap

end Pitch

/-- The largest error among the pitches that a channel can play, in cents. -/
def Channel.maxCents [FloatLibrary] (channel : Channel) : Float :=
  let errors := channel.range.pitches.filterMap fun pitch =>
    (channel.period? pitch).map fun period =>
      (Pitch.cents pitch (Pitch.playedFrequency channel.timerClock period)).abs
  errors.foldl (fun largest error => if largest < error then error else largest) 0

end Buzzer
