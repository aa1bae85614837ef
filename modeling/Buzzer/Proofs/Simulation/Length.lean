import Mathlib
import Buzzer.Proofs.Device.Performance
import Buzzer.Simulation

/-!
How many samples a recording has. A sample takes one tick at most, so a song needs the samples that its
ticks last for, and no fewer than its ticks. Nothing that happens on the way fails.
-/
namespace Buzzer

namespace Device

/-- Whether some actions have led to a device. -/
def Steady (target : Target) (device : Device) : Prop := ∃ history, device.Kept target history

section Timers

variable {target : Target} {device : Device} {channel : Nat}

variable (size : target.levels.size = 4 <<< target.channels.length)

include size

theorem Steady.flip (steady : device.Steady target) (runs : channel ∈ device.running) :
    ∃ mixer, device.mixer.flip channel = some mixer ∧ ({ device with mixer } : Device).Steady target := by
  obtain ⟨history, kept⟩ := steady
  obtain ⟨next, done, keptNext⟩ := kept.interrupt size runs
  unfold interrupt at done
  cases flipped : device.mixer.flip channel with
  | none =>
    rw [flipped] at done
    cases done
  | some mixer =>
    rw [flipped] at done
    cases done
    exact ⟨mixer, rfl, _, keptNext⟩

theorem Steady.flipTimes? (steady : device.Steady target) (runs : channel ∈ device.running)
    (times : Nat) :
    ∃ mixer, Simulation.flipTimes? channel device.mixer times = some mixer ∧
      ({ device with mixer } : Device).Steady target := by
  induction times generalizing device with
  | zero => exact ⟨device.mixer, rfl, steady⟩
  | succ times ih =>
    obtain ⟨flipped, flips, steadyFlipped⟩ := steady.flip size runs
    obtain ⟨mixer, rest, steadyNext⟩ := ih steadyFlipped runs
    refine ⟨mixer, ?_, steadyNext⟩
    rw [Simulation.flipTimes?, flips]
    exact rest

/-- The timers that run during a sample leave the device steady, whatever time they have counted. -/
theorem Steady.runTimers? (sampleRate channel : Nat) (oscillators : List Oscillator)
    (elapsed : List Nat) (steady : device.Steady target)
    (here : ∀ index oscillator, oscillators[index]? = some oscillator →
      device.oscillators[channel + index]? = some oscillator) :
    ∃ later mixer,
      Simulation.runTimers? sampleRate channel oscillators elapsed device.mixer = some (later, mixer) ∧
        ({ device with mixer } : Device).Steady target := by
  induction oscillators generalizing device elapsed channel with
  | nil => exact ⟨[], device.mixer, rfl, steady⟩
  | cons oscillator oscillators ih =>
    cases elapsed with
    | nil => exact ⟨[], device.mixer, rfl, steady⟩
    | cons time elapsed =>
      have flips : ∃ mixer,
          Simulation.flipTimes? channel device.mixer
            (Simulation.runTimer sampleRate oscillator time).1 = some mixer ∧
          ({ device with mixer } : Device).Steady target := by
        cases runs : oscillator.timer.running with
        | false =>
          have none : Simulation.runTimer sampleRate oscillator time = (0, 0) := by
            rw [Simulation.runTimer, runs, if_neg Bool.false_ne_true]
          rw [none]
          exact ⟨device.mixer, rfl, steady⟩
        | true =>
          have running : channel ∈ device.running :=
            mem_running.mpr ⟨oscillator, here 0 oscillator rfl, runs⟩
          exact steady.flipTimes? size running _
      obtain ⟨flipped, done, steadyFlipped⟩ := flips
      have hereLater : ∀ index other, oscillators[index]? = some other →
          device.oscillators[channel + 1 + index]? = some other := by
        intro index other found
        rw [Nat.add_assoc, Nat.add_comm 1]
        exact here (index + 1) other found
      obtain ⟨later, mixer, rest, steadyNext⟩ := ih (channel + 1) elapsed steadyFlipped hereLater
      refine ⟨(Simulation.runTimer sampleRate oscillator time).2 :: later, mixer, ?_, steadyNext⟩
      simp only [Simulation.runTimers?, done, Option.bind_eq_bind, Option.bind_some, rest,
        Option.pure_def]

theorem Steady.hearAll? (steady : device.Steady target) (changes : List Change)
    (inside : ∀ change ∈ changes, change.channel < target.channels.length) :
    ∃ next, device.hearAll? changes = some next ∧ next.Steady target := by
  obtain ⟨history, kept⟩ := steady
  obtain ⟨next, hears, keptNext⟩ := kept.hearAll? size changes inside
  exact ⟨next, hears, _, keptNext⟩

end Timers

end Device

namespace Simulation

/-- The samples that are still to be taken if there are some ticks still to be played. The next tick comes
once the current one is over, every tick takes a sample at least, and they last for as long as they last. -/
def samplesLeft (tickLength tickPhase ticks : Nat) : Nat :=
  max (ticks + (tickLength - tickPhase) ⌈/⌉ sampleLength)
    (((ticks + 1) * tickLength - tickPhase) ⌈/⌉ sampleLength)

theorem ceilDiv_sampleLength (time : Nat) : time ⌈/⌉ sampleLength = (time + 999999) / 1000000 := by
  rw [Nat.ceilDiv_eq_add_pred_div, sampleLength]
  omega

section Samples

variable {tickLength tickPhase ticks : Nat}

theorem samplesLeft_within (within : tickPhase < tickLength) :
    samplesLeft tickLength tickPhase ticks =
      samplesLeft tickLength (tickPhase + sampleLength) ticks + 1 := by
  have whole : (ticks + 1) * tickLength = ticks * tickLength + tickLength := Nat.succ_mul _ _
  simp only [samplesLeft, ceilDiv_sampleLength, whole]
  simp only [sampleLength]
  omega

theorem samplesLeft_due (due : tickLength ≤ tickPhase) : samplesLeft tickLength tickPhase 0 = 0 := by
  simp only [samplesLeft, ceilDiv_sampleLength, Nat.zero_add, Nat.one_mul]
  omega

/-- A tick that is due takes one sample. Where ticks are longer than samples, the later ones are not late
for it. -/
theorem samplesLeft_tick (due : tickLength ≤ tickPhase) :
    samplesLeft tickLength tickPhase (ticks + 1) =
      samplesLeft tickLength (tickPhase - tickLength + sampleLength) ticks + 1 := by
  obtain ⟨late, rfl⟩ := Nat.exists_eq_add_of_le due
  have now : tickLength - (tickLength + late) = 0 := Nat.sub_eq_zero_of_le due
  have whole : (ticks + 1) * tickLength = ticks * tickLength + tickLength := Nat.succ_mul _ _
  have rest : (ticks + 1 + 1) * tickLength - (tickLength + late) =
      ticks * tickLength + tickLength - late := by
    rw [Nat.succ_mul, Nat.add_comm tickLength late, Nat.add_sub_add_right, whole]
  have long : sampleLength ≤ tickLength → ticks * 1000000 ≤ ticks * tickLength :=
    Nat.mul_le_mul_left ticks
  simp only [samplesLeft, ceilDiv_sampleLength, now, rest, whole, Nat.add_sub_cancel_left]
  simp only [sampleLength] at long ⊢
  by_cases soon : tickLength ≤ late + 1000000
  · rw [Nat.sub_eq_zero_of_le soon]
    omega
  · have lasts := long (by omega)
    omega

theorem samplesLeft_start (tickLength ticks : Nat) :
    samplesLeft tickLength tickLength ticks = max ticks ((ticks * tickLength) ⌈/⌉ sampleLength) := by
  have whole : (ticks + 1) * tickLength - tickLength = ticks * tickLength := by
    rw [Nat.succ_mul, Nat.add_sub_cancel]
  rw [samplesLeft, whole, Nat.sub_self, zero_ceilDiv, Nat.add_zero]

end Samples

/-- Whether taking one sample after another comes to some samples until the song has ended. -/
inductive Renders : Simulation → List UInt8 → Prop
  | finished {simulation : Simulation} (ended : simulation.next = .finished) : Renders simulation []
  | sample {simulation next : Simulation} {value : UInt8} {later : List UInt8}
    (taken : simulation.next = .sample value next) (renders : Renders next later) :
    Renders simulation (value :: later)

theorem Renders.unique {simulation : Simulation} {samples others : List UInt8}
    (renders : simulation.Renders samples) (again : simulation.Renders others) : samples = others := by
  induction renders generalizing others with
  | finished ended =>
    cases again with
    | finished => rfl
    | sample taken => cases ended.symm.trans taken
  | sample taken _ ih =>
    cases again with
    | finished ended => cases taken.symm.trans ended
    | sample takenAgain renders =>
      cases taken.symm.trans takenAgain
      rw [ih renders]

/-- A recording with a limit that is not reached holds all samples. -/
theorem Renders.record? {simulation : Simulation} {samples : List UInt8}
    (renders : simulation.Renders samples) {limit : Nat} (enough : samples.length < limit) :
    simulation.record? limit = some ⟨samples, .finished⟩ := by
  induction renders generalizing limit with
  | finished ended =>
    obtain ⟨others, rfl⟩ := Nat.exists_eq_add_of_lt enough
    simp only [Simulation.record?, ended]
  | sample taken _ ih =>
    cases limit with
    | zero => exact (Nat.not_lt_zero _ enough).elim
    | succ limit =>
      rw [Simulation.record?, taken]
      simp only [ih (Nat.lt_of_succ_lt_succ enough)]

def left (simulation : Simulation) : Nat :=
  samplesLeft simulation.tickLength simulation.tickPhase simulation.playback.ticksLeft

/-- Whether a simulation plays its parts on time on the device of a target. -/
structure Going (parts : Nat → Option (List Event)) (target : Target) (simulation : Simulation) : Prop where
  onTime : ∃ elapsed, Playback.OnTime parts target.channels.length elapsed simulation.playback
  steady : simulation.device.Steady target

section Going

variable {parts : Nat → Option (List Event)} {target : Target} {simulation : Simulation}

variable (size : target.levels.size = 4 <<< target.channels.length)

include size

theorem Going.takeSample (going : simulation.Going parts target) :
    ∃ value next, simulation.takeSample = .sample value next ∧ next.Going parts target ∧
      next.left = simulation.left := by
  obtain ⟨later, mixer, runs, steady⟩ :=
    going.steady.runTimers? size simulation.sampleRate 0 simulation.device.oscillators
      simulation.elapsed (by simp)
  refine ⟨sampleOf simulation.pwmTop (mixer.duty.getD 0),
    { simulation with elapsed := later, device.mixer := mixer }, ?_, ?_, rfl⟩
  · simp only [Simulation.takeSample, runs]
  · exact ⟨going.onTime, steady⟩

/-- The next step takes one of the samples that are left, or finds that there are none. -/
theorem Going.next (going : simulation.Going parts target) :
    (simulation.left = 0 ∧ simulation.next = .finished) ∨
      ∃ value next, simulation.next = .sample value next ∧ next.Going parts target ∧
        simulation.left = next.left + 1 := by
  unfold Simulation.next
  by_cases within : simulation.tickPhase < simulation.tickLength
  · rw [if_pos within]
    have goingLater : Going parts target
        { simulation with tickPhase := simulation.tickPhase + sampleLength } :=
      ⟨going.onTime, going.steady⟩
    obtain ⟨value, next, sample, goingNext, left⟩ := goingLater.takeSample size
    refine .inr ⟨value, next, sample, goingNext, ?_⟩
    rw [left]
    exact samplesLeft_within within
  · rw [if_neg within]
    have due : simulation.tickLength ≤ simulation.tickPhase := Nat.le_of_not_lt within
    obtain ⟨elapsed, onTime⟩ := going.onTime
    obtain ⟨tick, step, later, played, ticks, told⟩ := Playback.tick_ticksLeft onTime
    simp only [step]
    cases remaining : simulation.playback.ticksLeft with
    | zero =>
      have silent : ¬tick.played = true := by
        rw [played, remaining]
        exact Nat.lt_irrefl 0
      rw [if_neg silent]
      refine .inl ⟨?_, rfl⟩
      rw [left, remaining]
      exact samplesLeft_due due
    | succ others =>
      rw [remaining, Nat.add_sub_cancel] at ticks
      have plays : tick.played = true := played.mpr (by rw [remaining]; exact Nat.succ_pos _)
      obtain ⟨heard, hears, steady⟩ := going.steady.hearAll? size tick.changes
        fun change member => ((told.scheduled change).mp member).1
      simp only [plays, if_true, hears]
      have goingLater : Going parts target
          { simulation with
            playback := tick.next
            device := heard
            tickPhase := simulation.tickPhase - simulation.tickLength + sampleLength } :=
        ⟨⟨_, later⟩, steady⟩
      obtain ⟨value, next, sample, goingNext, left⟩ := goingLater.takeSample size
      refine .inr ⟨value, next, sample, goingNext, ?_⟩
      rw [left, Simulation.left, Simulation.left, remaining]
      simp only [ticks]
      exact samplesLeft_tick due

/-- A recording holds the samples that are left, or as many as it is limited to. -/
theorem Going.record? (going : simulation.Going parts target) (limit : Nat) :
    ∃ recording, simulation.record? limit = some recording ∧
      recording.samples.length = min limit simulation.left ∧
      (recording.ending = .finished ↔ simulation.left < limit) := by
  induction limit generalizing simulation with
  | zero => exact ⟨⟨[], .stopped⟩, rfl, by simp, by simp⟩
  | succ limit ih =>
    rcases going.next size with ⟨none, finished⟩ | ⟨value, next, sample, goingNext, left⟩
    · refine ⟨⟨[], .finished⟩, ?_, by simp [none], by simp [none]⟩
      simp only [Simulation.record?, finished]
    · obtain ⟨recording, rest, length, ending⟩ := ih goingNext
      refine ⟨{ recording with samples := value :: recording.samples }, ?_, ?_, ?_⟩
      · simp only [Simulation.record?, sample, rest]
      · rw [List.length_cons, length, left]
        omega
      · rw [ending, left, Nat.add_lt_add_iff_right]

/-- A simulation that goes on comes to the samples that are left. -/
theorem Going.renders (going : simulation.Going parts target) :
    ∃ samples, simulation.Renders samples ∧ samples.length = simulation.left := by
  generalize count : simulation.left = left
  induction left generalizing simulation with
  | zero =>
    rcases going.next size with ⟨-, finished⟩ | ⟨_, next, -, -, more⟩
    · exact ⟨[], .finished finished, rfl⟩
    · omega
  | succ left ih =>
    rcases going.next size with ⟨none, -⟩ | ⟨value, next, sample, goingNext, more⟩
    · omega
    · obtain ⟨later, renders, length⟩ := ih goingNext (by omega)
      exact ⟨value :: later, .sample sample renders, congrArg (· + 1) length⟩

/-- A loaded song is simulated on a target with a level for everything, with all its ticks still to be
played. -/
theorem going_start {bytes : List UInt8} {song : Song} (loaded : Song.ofBytes bytes = .ok song)
    {sampleRate : Nat} (positive : 0 < sampleRate) :
    ∃ simulation tempo, song.tempo? = some tempo ∧ start song target sampleRate = .ok simulation ∧
      simulation.Going song.part? target ∧
      simulation.left = max (song.passTicks target.channels.length)
        ((song.passTicks target.channels.length * (Tempo.tickMicros tempo * sampleRate))
          ⌈/⌉ sampleLength) := by
  obtain ⟨playback, started, onTime⟩ := Playback.start_onTime loaded target.channels.length
  obtain ⟨device, resets, kept⟩ := (Device.fresh_device target).kept.made.reset size []
  refine ⟨{ playback, device, sampleRate
            tickLength := Tempo.tickMicros playback.tempo * sampleRate
            pwmTop := max target.pwmTop.toNat 1
            tickPhase := Tempo.tickMicros playback.tempo * sampleRate
            elapsed := target.channels.map fun _ => 0 },
    playback.tempo, Playback.tempo?_of_start started, ?_, ⟨⟨0, onTime⟩, _, kept⟩, ?_⟩
  · rw [start, if_neg (Nat.ne_of_gt positive), resets, started]
  · have ticks : playback.ticksLeft = song.passTicks target.channels.length :=
      Playback.ticksLeft_of_onTime onTime
    rw [left, ticks]
    exact samplesLeft_start _ _

end Going

/-- The length of a recording is told from the start, where a tick is due. -/
theorem length_of_start {song : Song} {target : Target} {sampleRate : Nat} {simulation : Simulation}
    (started : start song target sampleRate = .ok simulation) : simulation.length = simulation.left := by
  have due : simulation.tickPhase = simulation.tickLength := by
    unfold start at started
    split at started
    · cases started
    · split at started
      · cases started
        rfl
      · cases started
  rw [left, due, samplesLeft_start, Nat.ceilDiv_eq_add_pred_div, length]

/-- Nothing fails while the samples of a loaded song are taken, and the song comes to an end. Its recording
holds just these samples. -/
theorem renders_of_loaded {bytes : List UInt8} {song : Song} (loaded : Song.ofBytes bytes = .ok song)
    {target : Target} (size : target.levels.size = 4 <<< target.channels.length) {sampleRate : Nat}
    (positive : 0 < sampleRate) :
    ∃ simulation samples, start song target sampleRate = .ok simulation ∧ simulation.Renders samples ∧
      samples.length = simulation.length ∧ simulation.recording? = some ⟨samples, .finished⟩ := by
  obtain ⟨simulation, -, -, started, going, -⟩ := going_start size loaded positive
  obtain ⟨samples, renders, length⟩ := going.renders size
  rw [← length_of_start started] at length
  have enough : samples.length < simulation.length + 1 := length ▸ Nat.lt_succ_self _
  exact ⟨simulation, samples, started, renders, length, renders.record? enough⟩

/-- A loaded song can be simulated at every sample rate above zero. It takes the samples that its ticks
last for, rounded up, unless a tick is shorter than a sample: then every tick still takes a sample. -/
theorem length_of_record {bytes : List UInt8} {song : Song} (loaded : Song.ofBytes bytes = .ok song)
    {target : Target} (size : target.levels.size = 4 <<< target.channels.length) {sampleRate : Nat}
    (positive : 0 < sampleRate) :
    ∃ simulation tempo samples, song.tempo? = some tempo ∧
      start song target sampleRate = .ok simulation ∧
      (sampleLength ≤ Tempo.tickMicros tempo * sampleRate → samples =
        (song.passTicks target.channels.length * Tempo.tickMicros tempo * sampleRate) ⌈/⌉ sampleLength) ∧
      (Tempo.tickMicros tempo * sampleRate < sampleLength →
        samples = song.passTicks target.channels.length) ∧
      ∀ limit, ∃ recording, simulation.record? limit = some recording ∧
        recording.samples.length = min limit samples ∧
        (recording.ending = .finished ↔ samples < limit) := by
  obtain ⟨simulation, tempo, tempos, started, going, left⟩ := going_start size loaded positive
  refine ⟨simulation, tempo, simulation.left, tempos, started, ?_, ?_, going.record? size⟩
  · intro long
    have atLeast : song.passTicks target.channels.length * 1000000 ≤
        song.passTicks target.channels.length * (Tempo.tickMicros tempo * sampleRate) :=
      Nat.mul_le_mul_left _ long
    rw [left, Nat.mul_assoc]
    apply Nat.max_eq_right
    rw [ceilDiv_sampleLength]
    omega
  · intro short
    have atMost : song.passTicks target.channels.length * (Tempo.tickMicros tempo * sampleRate) ≤
        song.passTicks target.channels.length * 1000000 :=
      Nat.mul_le_mul_left _ (Nat.le_of_lt short)
    rw [left, Nat.max_eq_left]
    rw [ceilDiv_sampleLength]
    omega

theorem length_of_twoTracks :
    ∃ simulation recording, start ⟨Song.twoTracks⟩ Target.atmega3208 8000 = .ok simulation ∧
      simulation.record? 200 = some recording ∧ recording.samples.length = 175 ∧
      recording.ending = .finished := by
  obtain ⟨simulation, tempo, samples, tempos, started, long, -, records⟩ :=
    @length_of_record _ _ Song.ofBytes_twoTracks Target.atmega3208 rfl 8000 (by decide)
  have first : tempo = 0x10 := by
    rw [← Option.some.injEq, ← tempos]
    rfl
  have ticks : (⟨Song.twoTracks⟩ : Song).passTicks Target.atmega3208.channels.length = 5 := by cbv
  rw [first, ticks, ceilDiv_sampleLength] at long
  have whole : samples = 175 := (long (by decide)).trans (by decide)
  obtain ⟨recording, records, length, ending⟩ := records 200
  exact ⟨simulation, recording, started, records, by omega, ending.mpr (by omega)⟩

/-- A song with a rest of 85 ticks of 256 µs each. -/
def longRest : List UInt8 := [0x00, 0x00, 0x08, 0x00, 0x08, 0x00, 0x00, 0xfe, 0xff, 0xff]

/-- A millisecond is longer than a tick of that song, so it does not end after the 23 samples that its
ticks last for. -/
theorem longRest_outlasts_its_ticks :
    ∃ simulation recording, Song.ofBytes longRest = .ok ⟨longRest⟩ ∧
      start ⟨longRest⟩ Target.atmega3208 1000 = .ok simulation ∧
      simulation.record? 100 = some recording ∧ recording.ending = .finished ∧
      recording.samples.length = 86 ∧
      ((⟨longRest⟩ : Song).passTicks 3 * Tempo.tickMicros 0 * 1000) ⌈/⌉ sampleLength = 23 := by
  have loaded : Song.ofBytes longRest = .ok ⟨longRest⟩ := by cbv
  have ticks : (⟨longRest⟩ : Song).passTicks Target.atmega3208.channels.length = 86 := by cbv
  obtain ⟨simulation, tempo, tempos, started, going, left⟩ :=
    @going_start Target.atmega3208 rfl _ _ loaded 1000 (by decide)
  have first : tempo = 0x00 := by
    rw [← Option.some.injEq, ← tempos]
    rfl
  rw [first, ticks, ceilDiv_sampleLength] at left
  have whole : simulation.left = 86 := left.trans (by decide)
  obtain ⟨recording, records, length, ending⟩ := going.record? rfl 100
  refine ⟨simulation, recording, loaded, started, records, ending.mpr (by omega), ?_, ?_⟩
  · omega
  · have played : (⟨longRest⟩ : Song).passTicks 3 = 86 := ticks
    rw [played, ceilDiv_sampleLength]
    decide

end Simulation

end Buzzer
