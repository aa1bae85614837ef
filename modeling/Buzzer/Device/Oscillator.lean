import Buzzer.Note

/-!
Square waves from timers. The timer of a channel interrupts every `period + 1` cycles of its clock,
and each interrupt starts the other half of the channel's wave.
-/
namespace Buzzer

/-- How the timer of one channel turns pitches into periods. -/
structure Channel where
  /-- The timer's clock, in Hz. -/
  timerClock : UInt32
  /-- The periods of the pitches in a row. -/
  periods : Array UInt16
  /-- Added to a pitch for its place among the periods. -/
  offset : Int

/-- The pitches from `first` up to, but not including, `past`. -/
structure PitchRange where
  first : Nat
  past : Nat
  deriving DecidableEq

namespace PitchRange

def contains (range : PitchRange) (pitch : Nat) : Bool := range.first ≤ pitch && pitch < range.past

def size (range : PitchRange) : Nat := range.past - range.first

def pitches (range : PitchRange) : List Nat := List.range' range.first range.size

end PitchRange

namespace Channel

/-- The period for a pitch, if the channel can play it. The place of the period is a signed word. -/
def period? (channel : Channel) (pitch : Nat) : Option UInt16 :=
  let place := Int.bmod (pitch + channel.offset) 0x10000
  if place < 0 then none else channel.periods[place.toNat]?

/-- The pitches that the channel can play. The number of periods is taken as a signed word, and both
bounds are kept as bytes. -/
def range (channel : Channel) : PitchRange :=
  let first := max (-channel.offset) 0
  let past := Int.bmod channel.periods.size 0x10000 - channel.offset
  ⟨(first % 0x100).toNat, (past % 0x100).toNat⟩

end Channel

/-- The timer of one channel. -/
structure Timer where
  period : UInt16 := 0
  running : Bool := false
  deriving DecidableEq

/-- A call to a timer. -/
inductive TimerCall where
  | setPeriod (period : UInt16)
  | start
  | stop
  deriving DecidableEq

def Timer.apply (timer : Timer) : TimerCall → Timer
  | .setPeriod period => { timer with period }
  | .start => { timer with running := true }
  | .stop => { timer with running := false }

/-- The square wave generator of one channel. -/
structure Oscillator where
  channel : Channel
  timer : Timer := {}

namespace Oscillator

def period? (oscillator : Oscillator) (note : Note) : Option UInt16 :=
  note.pitch?.bind oscillator.channel.period?

/-- Whether the channel sounds when it plays a note. It is silent for a rest and for a pitch that
it has no period for. -/
def sounds (oscillator : Oscillator) (note : Note) : Bool := (oscillator.period? note).isSome

/-- The calls that make the timer play a note. -/
def calls (oscillator : Oscillator) (note : Note) : List TimerCall :=
  match oscillator.period? note with
  | some period => [.setPeriod period, .start]
  | none => [.stop]

def call (oscillator : Oscillator) (calls : List TimerCall) : Oscillator :=
  { oscillator with timer := calls.foldl Timer.apply oscillator.timer }

def play (oscillator : Oscillator) (note : Note) : Oscillator :=
  oscillator.call (oscillator.calls note)

def stop (oscillator : Oscillator) : Oscillator := oscillator.call [.stop]

end Oscillator

end Buzzer
