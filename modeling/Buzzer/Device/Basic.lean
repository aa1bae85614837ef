import Buzzer.Device.Mixer
import Buzzer.Device.Oscillator
import Buzzer.Playback

/-!
A device that plays several channels on one buzzer: each channel has an oscillator, and all of them
share a mixer.
-/
namespace Buzzer

structure Device where
  oscillators : List Oscillator
  mixer : Mixer

/-- The device after a step. A step faults when it needs a channel that the device does not have or
a level that its table does not have, and keeps what it has changed until then. -/
inductive Outcome where
  | done (device : Device)
  | fault (device : Device)

namespace Outcome

def device : Outcome → Device
  | done device => device
  | fault device => device

def done? : Outcome → Option Device
  | done device => some device
  | fault _ => none

end Outcome

namespace Device

/-- Takes over the mixer after one of its steps, unless the step has failed. -/
def mix (device : Device) : Option Mixer → Outcome
  | some mixer => .done { device with mixer }
  | none => .fault device

/-- Stops every timer and turns every channel off. -/
def reset (device : Device) : Outcome :=
  mix { device with oscillators := device.oscillators.map Oscillator.stop } device.mixer.reset

/-- Plays a change. A channel that falls silent is turned off; the end of a track turns all of them
off, but stops only its own timer. -/
def hear (device : Device) : Change → Outcome
  | .note channel note =>
    match device.oscillators[channel]? with
    | none => .fault device
    | some oscillator =>
      let played :=
        { device with oscillators := device.oscillators.set channel (oscillator.play note) }
      if oscillator.sounds note then .done played
      else played.mix (device.mixer.silence channel)
  | .trackEnd channel =>
    match device.oscillators[channel]? with
    | none => .fault device
    | some oscillator =>
      let stopped := { device with oscillators := device.oscillators.set channel oscillator.stop }
      stopped.mix device.mixer.reset

/-- The interrupt of a channel's timer. -/
def interrupt (device : Device) (channel : Nat) : Outcome := device.mix (device.mixer.flip channel)

def silence (device : Device) (channel : Nat) : Outcome :=
  device.mix (device.mixer.silence channel)

/-- The channels whose timers are running, in ascending order. -/
def running (device : Device) : List Nat :=
  (List.range device.oscillators.length).filter fun channel =>
    (device.oscillators[channel]?).any (·.timer.running)

/-- Plays changes in order, unless one of them faults. -/
def hearAll? (device : Device) (changes : List Change) : Option Device :=
  changes.foldlM (fun device change => (device.hear change).done?) device

/-- Gives some channels one interrupt each, a number of times over. -/
def interruptEach? (channels : List Nat) (device : Device) : (rounds : Nat) → Option Device
  | 0 => some device
  | rounds + 1 => do
    let device ← channels.foldlM (fun device channel => (device.interrupt channel).done?) device
    interruptEach? channels device rounds

/-- Gives the running channels one interrupt each, a number of times over. An interrupt neither starts
nor stops a timer. -/
def interruptAll? (device : Device) (rounds : Nat) : Option Device :=
  interruptEach? device.running device rounds

/-- Plays ticks, the first of which has the number `tick`, with something going on during the wait
after each of them. The answer holds the duty cycle at the end of every wait. -/
def playTicks? (wait : Nat → Device → Option Device) (tick : Nat) (device : Device) :
    List (List Change) → Option (List (Option UInt8) × Device)
  | [] => some ([], device)
  | changes :: ticks => do
    let device ← wait tick (← device.hearAll? changes)
    let (duties, last) ← playTicks? wait (tick + 1) device ticks
    return (device.mixer.duty :: duties, last)

end Device

end Buzzer
