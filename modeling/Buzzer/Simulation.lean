import Buzzer.Performance
import Buzzer.Target.Basic

/-!
A song as it sounds on a target, sample by sample. Timers and ticks are counted in units in which
every step of a sample is a whole number: clock cycles times the sample rate, and microseconds times
the sample rate.
-/
namespace Buzzer

/-- A device that plays a song, between two samples. -/
structure Simulation where
  playback : Playback
  device : Device
  pwmTop : Nat
  sampleRate : Nat
  /-- The length of a tick. -/
  tickLength : Nat
  /-- The time since the last tick began. -/
  tickPhase : Nat
  /-- The time since the last interrupt of every channel. -/
  elapsed : List Nat

/-- What taking one sample comes to. -/
inductive Simulation.Step where
  | sample (value : UInt8) (next : Simulation)
  | finished
  /-- The song or the table of levels is too short. -/
  | fault

namespace Simulation

/-- The time that passes with every sample, in microseconds times the sample rate. -/
def sampleLength : Nat := 1000000

def start (song : Song) (target : Target) (sampleRate : Nat) : Except Failure Simulation :=
  if sampleRate = 0 then .error (.refused .sampleRate)
  else
    match target.device.reset, Playback.start song target.channels.length with
    | .done device, some playback =>
      let tickLength := Tempo.tickMicros playback.tempo * sampleRate
      .ok
        { playback, device, sampleRate, tickLength
          pwmTop := max target.pwmTop.toNat 1
          tickPhase := tickLength
          elapsed := target.channels.map fun _ => 0 }
    | _, _ => .error .fault

/-- The interrupts of a timer in the time that has passed, added to those that it has `fired`, and the
time since the last of them. -/
def expire (period : Nat) (fired elapsed : Nat) : Nat × Nat :=
  if _due : 0 < period ∧ period ≤ elapsed then expire period (fired + 1) (elapsed - period)
  else (fired, elapsed)
termination_by elapsed

/-- Starts the other half of a channel's wave a number of times over. -/
def flipTimes? (channel : Nat) (mixer : Mixer) : (times : Nat) → Option Mixer
  | 0 => some mixer
  | times + 1 => do flipTimes? channel (← mixer.flip channel) times

/-- The interrupts of an oscillator's timer during one sample, and the time since the last of them.
A timer that is stopped starts over. -/
def runTimer (sampleRate : Nat) (oscillator : Oscillator) (elapsed : Nat) : Nat × Nat :=
  if oscillator.timer.running then
    expire ((oscillator.timer.period.toNat + 1) * sampleRate) 0
      (elapsed + oscillator.channel.timerClock.toNat)
  else (0, 0)

/-- Lets the timers of the channels from `channel` on run for one sample. -/
def runTimers? (sampleRate channel : Nat) :
    List Oscillator → List Nat → Mixer → Option (List Nat × Mixer)
  | oscillator :: oscillators, elapsed :: later, mixer => do
    let (fired, elapsed) := runTimer sampleRate oscillator elapsed
    let mixer ← flipTimes? channel mixer fired
    let (later, mixer) ← runTimers? sampleRate (channel + 1) oscillators later mixer
    return (elapsed :: later, mixer)
  | _, _, mixer => some ([], mixer)

/-- The sample of a duty cycle. -/
def sampleOf (pwmTop : Nat) (duty : UInt8) : UInt8 := UInt8.ofNat (duty.toNat * 255 / pwmTop)

/-- Runs the timers and takes a sample. -/
def takeSample (simulation : Simulation) : Step :=
  match runTimers? simulation.sampleRate 0 simulation.device.oscillators simulation.elapsed
      simulation.device.mixer with
  | none => .fault
  | some (elapsed, mixer) =>
    .sample (sampleOf simulation.pwmTop (mixer.duty.getD 0))
      { simulation with elapsed, device.mixer := mixer }

/-- Takes the next sample, after a tick if one is due. -/
def next (simulation : Simulation) : Step :=
  if simulation.tickPhase < simulation.tickLength then
    takeSample { simulation with tickPhase := simulation.tickPhase + sampleLength }
  else
    match simulation.playback.tick with
    | none => .fault
    | some tick =>
      if tick.played then
        match simulation.device.hearAll? tick.changes with
        | none => .fault
        | some device =>
          takeSample { simulation with
            playback := tick.next
            device
            tickPhase := simulation.tickPhase - simulation.tickLength + sampleLength }
      else .finished

/-- The samples of a simulation, and how it came to its end. -/
structure Recording where
  samples : List UInt8
  ending : Ending

/-- Takes samples until the song has ended, but at most `limit`. -/
def record? (simulation : Simulation) : (limit : Nat) → Option Recording
  | 0 => some ⟨[], .stopped⟩
  | limit + 1 =>
    match simulation.next with
    | .fault => none
    | .finished => some ⟨[], .finished⟩
    | .sample value next =>
      match next.record? limit with
      | some later => some { later with samples := value :: later.samples }
      | none => none

/-- The number of samples until the song has ended, where every tick lasts for at least one. -/
def length (simulation : Simulation) : Nat :=
  let ticks := simulation.playback.ticksLeft
  max ticks ((ticks * simulation.tickLength + sampleLength - 1) / sampleLength)

/-- Takes samples until the song has ended. One sample more than its length tells that it has. -/
def recording? (simulation : Simulation) : Option Recording :=
  simulation.record? (simulation.length + 1)

end Simulation

end Buzzer
