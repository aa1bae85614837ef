import Buzzer.Proofs.Device.Runs
import Buzzer.Proofs.Playback.Longest
import Buzzer.Simulation

/-!
The interrupts of the simulated timers. A sample adds the cycles of a timer's clock to what the timer has
counted and takes whole periods off it, so nothing is lost from one sample to the next. As long as a timer
keeps its period, its interrupts are those of the whole time, however many samples that is cut into.
-/
namespace Buzzer

namespace Device

/-! Whatever a device hears, its oscillators stay those of its channels. -/

variable {device after : Device}

theorem oscillators_of_mix {mixed : Option Mixer} (done : (device.mix mixed).done? = some after) :
    after.oscillators = device.oscillators := by
  cases mixed with
  | none => cases done
  | some mixer =>
    cases done
    rfl

theorem channels_of_hear {change : Change} (done : (device.hear change).done? = some after) :
    after.oscillators.map Oscillator.channel = device.oscillators.map Oscillator.channel := by
  cases change with
  | note channel note =>
    unfold hear at done
    cases here : device.oscillators[channel]? with
    | none =>
      simp only [here] at done
      cases done
    | some oscillator =>
      simp only [here] at done
      split at done
      · cases done
        exact channels_of_set here rfl
      · rw [oscillators_of_mix done]
        exact channels_of_set here rfl
  | trackEnd channel =>
    unfold hear at done
    cases here : device.oscillators[channel]? with
    | none =>
      simp only [here] at done
      cases done
    | some oscillator =>
      simp only [here] at done
      rw [oscillators_of_mix done]
      exact channels_of_set here rfl

theorem channels_of_hearAll? {changes : List Change} (hears : device.hearAll? changes = some after) :
    after.oscillators.map Oscillator.channel = device.oscillators.map Oscillator.channel := by
  unfold hearAll? at hears
  induction changes generalizing device with
  | nil =>
    cases hears
    rfl
  | cons change later ih =>
    rw [List.foldlM_cons] at hears
    obtain ⟨between, done, others⟩ := Option.bind_eq_some_iff.mp hears
    rw [ih others, channels_of_hear done]

theorem channels_of_reset {target : Target} (done : target.device.reset = .done after) :
    after.oscillators.map Oscillator.channel = target.channels := by
  have same : after.oscillators = target.device.oscillators.map Oscillator.stop :=
    oscillators_of_mix (congrArg Outcome.done? done)
  rw [same, List.map_map, ← (fresh_device target).channels]
  rfl

end Device

namespace Simulation

/-! The interrupts of one timer. -/

/-- The loop that takes a period off what a timer has counted, as often as it can: how often that is, and
what is left. -/
inductive Countdown (period : Nat) : (elapsed fired rest : Nat) → Prop where
  | early {elapsed} (early : elapsed < period) : Countdown period elapsed 0 elapsed
  | due {elapsed fired rest} (due : period ≤ elapsed)
      (later : Countdown period (elapsed - period) fired rest) : Countdown period elapsed (fired + 1) rest

theorem expire_eq {period : Nat} (positive : 0 < period) (fired elapsed : Nat) :
    expire period fired elapsed = (fired + elapsed / period, elapsed % period) := by
  induction fired, elapsed using expire.induct period with
  | case1 fired elapsed due ih =>
    rw [expire, dif_pos due, ih, Nat.div_eq_sub_div positive due.2, ← Nat.mod_eq_sub_mod due.2]
    congr 1
    omega
  | case2 fired elapsed early =>
    have before : elapsed < period := by
      by_contra late
      exact early ⟨positive, Nat.le_of_not_lt late⟩
    rw [expire, dif_neg early, Nat.div_eq_of_lt before, Nat.mod_eq_of_lt before, Nat.add_zero]

/-- The loop ends for every period above zero. -/
theorem countdown_of_pos {period : Nat} (positive : 0 < period) (elapsed : Nat) :
    Countdown period elapsed (elapsed / period) (elapsed % period) := by
  induction elapsed using Nat.strongRecOn with
  | ind elapsed ih =>
    by_cases early : elapsed < period
    · rw [Nat.div_eq_of_lt early, Nat.mod_eq_of_lt early]
      exact .early early
    · have due := Nat.le_of_not_lt early
      rw [Nat.div_eq_sub_div positive due, Nat.mod_eq_sub_mod due]
      exact .due due (ih (elapsed - period) (by omega))

/-- The time between two interrupts of a timer, in the units in which it is counted. -/
def interval (sampleRate : Nat) (period : UInt16) : Nat := (period.toNat + 1) * sampleRate

theorem interval_pos {sampleRate : Nat} (positive : 0 < sampleRate) (period : UInt16) :
    0 < interval sampleRate period :=
  Nat.mul_pos (Nat.succ_pos _) positive

theorem interval_le (sampleRate : Nat) (period : UInt16) :
    interval sampleRate period ≤ 0x10000 * sampleRate :=
  Nat.mul_le_mul_right sampleRate period.toNat_lt

section Timers

variable {sampleRate : Nat} {oscillator : Oscillator}

theorem runTimer_of_running (positive : 0 < sampleRate) (runs : oscillator.timer.running = true)
    (elapsed : Nat) :
    runTimer sampleRate oscillator elapsed =
      ((elapsed + oscillator.channel.timerClock.toNat) / interval sampleRate oscillator.timer.period,
        (elapsed + oscillator.channel.timerClock.toNat) % interval sampleRate oscillator.timer.period) := by
  rw [runTimer, if_pos runs]
  exact (expire_eq (interval_pos positive _) 0 _).trans (by rw [Nat.zero_add])

theorem runTimer_of_stopped (stopped : oscillator.timer.running = false) (elapsed : Nat) :
    runTimer sampleRate oscillator elapsed = (0, 0) := by
  rw [runTimer, if_neg (by rw [stopped]; exact Bool.false_ne_true)]

theorem runTimer_lt (positive : 0 < sampleRate) (oscillator : Oscillator) (elapsed : Nat) :
    (runTimer sampleRate oscillator elapsed).2 < 0x10000 * sampleRate := by
  cases runs : oscillator.timer.running with
  | true =>
    rw [runTimer_of_running positive runs]
    exact (Nat.mod_lt _ (interval_pos positive _)).trans_le (interval_le _ _)
  | false =>
    rw [runTimer_of_stopped runs]
    exact Nat.mul_pos (by decide) positive

end Timers

/-! The interrupts of one sample. -/

/-- The interrupts of the timers of the channels from `channel` on, in order. Each is given by the channel
whose wave it flips. -/
def interruptsFrom (sampleRate channel : Nat) : List Oscillator → List Nat → List Nat
  | oscillator :: oscillators, elapsed :: later =>
    List.replicate (runTimer sampleRate oscillator elapsed).1 channel ++
      interruptsFrom sampleRate (channel + 1) oscillators later
  | _, _ => []

/-- The interrupts of the sample that a simulation takes. -/
def interrupts (timed : Simulation) : List Nat :=
  interruptsFrom timed.sampleRate 0 timed.device.oscillators timed.elapsed

/-- What the timers have counted after that sample. -/
def elapsedAfter (timed : Simulation) : List Nat :=
  List.zipWith (fun oscillator elapsed => (runTimer timed.sampleRate oscillator elapsed).2)
    timed.device.oscillators timed.elapsed

theorem flipTimes?_eq_foldlM (channel times : Nat) (mixer : Mixer) :
    flipTimes? channel mixer times = (List.replicate times channel).foldlM Mixer.flip mixer := by
  induction times generalizing mixer with
  | zero => rfl
  | succ times ih =>
    rw [flipTimes?, List.replicate_succ, List.foldlM_cons]
    congr 1
    funext flipped
    exact ih flipped

theorem runTimers?_eq_foldlM (sampleRate channel : Nat) (oscillators : List Oscillator)
    (elapsed : List Nat) (mixer : Mixer) :
    runTimers? sampleRate channel oscillators elapsed mixer =
      ((interruptsFrom sampleRate channel oscillators elapsed).foldlM Mixer.flip mixer).map
        (List.zipWith (fun oscillator elapsed => (runTimer sampleRate oscillator elapsed).2) oscillators
          elapsed, ·) := by
  induction oscillators generalizing channel elapsed mixer with
  | nil => rfl
  | cons oscillator oscillators ih =>
    cases elapsed with
    | nil => rfl
    | cons first later =>
      simp only [runTimers?, interruptsFrom, List.foldlM_append, flipTimes?_eq_foldlM, ih,
        List.zipWith_cons_cons, Option.bind_eq_bind, Option.pure_def, Option.map_bind]
      congr 1
      funext flipped
      rw [Function.comp_apply]
      cases (interruptsFrom sampleRate (channel + 1) oscillators later).foldlM Mixer.flip flipped with
      | none => rfl
      | some mixed => rfl

theorem le_of_mem_interruptsFrom {sampleRate first channel : Nat} {oscillators : List Oscillator}
    {elapsed : List Nat} (member : channel ∈ interruptsFrom sampleRate first oscillators elapsed) :
    first ≤ channel := by
  induction oscillators generalizing first elapsed with
  | nil => cases member
  | cons oscillator oscillators ih =>
    cases elapsed with
    | nil => cases member
    | cons time later =>
      rcases List.mem_append.mp member with here | there
      · exact (List.eq_of_mem_replicate here).ge
      · exact (Nat.le_succ first).trans (ih there)

theorem count_interruptsFrom (sampleRate first : Nat) {oscillators : List Oscillator} {elapsed : List Nat}
    {index time : Nat} {oscillator : Oscillator} (here : oscillators[index]? = some oscillator)
    (counted : elapsed[index]? = some time) :
    (interruptsFrom sampleRate first oscillators elapsed).count (first + index) =
      (runTimer sampleRate oscillator time).1 := by
  induction oscillators generalizing first elapsed index with
  | nil => cases here
  | cons other oscillators ih =>
    cases elapsed with
    | nil => cases counted
    | cons start later =>
      rw [interruptsFrom, List.count_append]
      cases index with
      | zero =>
        cases here
        cases counted
        have none : first ∉ interruptsFrom sampleRate (first + 1) oscillators later :=
          fun member => Nat.not_succ_le_self first (le_of_mem_interruptsFrom member)
        rw [Nat.add_zero, List.count_replicate_self, List.count_eq_zero_of_not_mem none, Nat.add_zero]
      | succ index =>
        have others : first + (index + 1) ∉ List.replicate (runTimer sampleRate other start).1 first :=
          fun member => by
            have same := List.eq_of_mem_replicate member
            omega
        rw [List.count_eq_zero_of_not_mem others, Nat.zero_add, Nat.add_comm index, ← Nat.add_assoc]
        exact ih (first + 1) here counted

section Sample

variable {timed : Simulation} {channel phase : Nat} {oscillator : Oscillator}

theorem count_interrupts (here : timed.device.oscillators[channel]? = some oscillator)
    (counted : timed.elapsed[channel]? = some phase) :
    timed.interrupts.count channel = (runTimer timed.sampleRate oscillator phase).1 := by
  have count := count_interruptsFrom timed.sampleRate 0 here counted
  rwa [Nat.zero_add] at count

theorem getElem?_elapsedAfter (here : timed.device.oscillators[channel]? = some oscillator)
    (counted : timed.elapsed[channel]? = some phase) :
    timed.elapsedAfter[channel]? = some (runTimer timed.sampleRate oscillator phase).2 := by
  rw [elapsedAfter, List.getElem?_zipWith, here, counted]

end Sample

/-! The interrupts of many samples. -/

/-- The simulation as its timers start to run for the next sample, after the tick that is due. -/
def timed? (simulation : Simulation) : Option Simulation :=
  if simulation.tickPhase < simulation.tickLength then
    some { simulation with tickPhase := simulation.tickPhase + sampleLength }
  else do
    let tick ← simulation.playback.tick
    guard tick.played
    let device ← simulation.device.hearAll? tick.changes
    return { simulation with
      playback := tick.next
      device
      tickPhase := simulation.tickPhase - simulation.tickLength + sampleLength }

/-- Samples that are taken one after another: the simulation before each of them as its timers start to run,
and the simulation after all of them. -/
inductive Run : Simulation → List Simulation → Simulation → Prop where
  | none {simulation} : Run simulation [] simulation
  | sample {simulation timed value next later last} (due : simulation.timed? = some timed)
      (taken : simulation.next = .sample value next) (others : Run next later last) :
      Run simulation (timed :: later) last

section Steps

variable {simulation timed next : Simulation} {value : UInt8}

theorem timed?_eq_some (due : simulation.timed? = some timed) :
    (simulation.tickPhase < simulation.tickLength ∧
        timed = { simulation with tickPhase := simulation.tickPhase + sampleLength }) ∨
      simulation.tickLength ≤ simulation.tickPhase ∧
        ∃ tick device, simulation.playback.tick = some tick ∧ tick.played = true ∧
          simulation.device.hearAll? tick.changes = some device ∧
          timed = { simulation with
            playback := tick.next
            device
            tickPhase := simulation.tickPhase - simulation.tickLength + sampleLength } := by
  unfold timed? at due
  split at due
  next within =>
    cases due
    exact .inl ⟨within, rfl⟩
  next late =>
    obtain ⟨tick, ticks, due⟩ := Option.bind_eq_some_iff.mp due
    obtain ⟨_, played, due⟩ := Option.bind_eq_some_iff.mp due
    obtain ⟨device, hears, due⟩ := Option.bind_eq_some_iff.mp due
    cases due
    refine .inr ⟨Nat.le_of_not_lt late, tick, device, ticks, ?_, hears, rfl⟩
    by_contra silent
    rw [guard, if_neg silent] at played
    cases played

theorem next_eq_takeSample (due : simulation.timed? = some timed) :
    simulation.next = timed.takeSample := by
  rcases timed?_eq_some due with ⟨within, rfl⟩ | ⟨late, tick, device, ticks, played, hears, rfl⟩
  · rw [next, if_pos within]
  · rw [next, if_neg (Nat.not_lt.mpr late)]
    simp only [ticks, played, if_true, hears]

/-- A sample runs the timers: it makes their interrupts, and keeps what they have counted since. -/
theorem takeSample_eq_sample (taken : timed.takeSample = .sample value next) :
    ∃ mixer, timed.interrupts.foldlM Mixer.flip timed.device.mixer = some mixer ∧
      next = { timed with elapsed := timed.elapsedAfter, device.mixer := mixer } := by
  rw [takeSample, runTimers?_eq_foldlM] at taken
  cases flips : timed.interrupts.foldlM Mixer.flip timed.device.mixer with
  | none =>
    rw [interrupts] at flips
    rw [flips] at taken
    cases taken
  | some mixer =>
    rw [interrupts] at flips
    rw [flips] at taken
    cases taken
    exact ⟨mixer, rfl, rfl⟩

theorem flips_of_next (due : simulation.timed? = some timed)
    (taken : simulation.next = .sample value next) :
    timed.interrupts.foldlM Mixer.flip timed.device.mixer = some next.device.mixer := by
  rw [next_eq_takeSample due] at taken
  obtain ⟨mixer, flips, rfl⟩ := takeSample_eq_sample taken
  exact flips

end Steps

/-! What every sample keeps. -/

/-- Whether a simulation has a timer for every channel of a target, none of which has counted as far as the
longest of all intervals. -/
structure Clocked (target : Target) (sampleRate : Nat) (simulation : Simulation) : Prop where
  positive : 0 < sampleRate
  rate : simulation.sampleRate = sampleRate
  channels : simulation.device.oscillators.map Oscillator.channel = target.channels
  counted : simulation.elapsed.length = target.channels.length
  early : ∀ phase ∈ simulation.elapsed, phase < 0x10000 * sampleRate

section Clocked

variable {target : Target} {sampleRate : Nat} {simulation timed next last : Simulation} {value : UInt8}
  {samples : List Simulation} {channel phase : Nat} {settings : Channel}

theorem Clocked.due (clocked : simulation.Clocked target sampleRate)
    (due : simulation.timed? = some timed) :
    timed.Clocked target sampleRate ∧ timed.elapsed = simulation.elapsed := by
  rcases timed?_eq_some due with ⟨-, rfl⟩ | ⟨-, tick, device, -, -, hears, rfl⟩
  · exact ⟨{ clocked with }, rfl⟩
  · exact ⟨{ clocked with channels := (Device.channels_of_hearAll? hears).trans clocked.channels }, rfl⟩

theorem Clocked.taken (clocked : timed.Clocked target sampleRate)
    (taken : timed.takeSample = .sample value next) : next.Clocked target sampleRate := by
  obtain ⟨mixer, -, rfl⟩ := takeSample_eq_sample taken
  have timers : timed.device.oscillators.length = target.channels.length := by
    rw [← clocked.channels, List.length_map]
  refine { clocked with counted := ?_, early := ?_ }
  · rw [elapsedAfter, List.length_zipWith, timers, clocked.counted, Nat.min_self]
  · intro phase member
    obtain ⟨index, here⟩ := List.getElem?_of_mem member
    obtain ⟨oscillator, before, -, -, rfl⟩ := List.getElem?_zipWith_eq_some.mp here
    rw [clocked.rate]
    exact runTimer_lt clocked.positive oscillator before

theorem Clocked.run (clocked : simulation.Clocked target sampleRate)
    (run : simulation.Run samples last) : last.Clocked target sampleRate := by
  induction run with
  | none => exact clocked
  | sample due taken _ ih =>
    rw [next_eq_takeSample due] at taken
    exact ih ((clocked.due due).1.taken taken)

theorem Clocked.exists_timer (clocked : simulation.Clocked target sampleRate)
    (here : target.channels[channel]? = some settings) :
    ∃ timer, simulation.device.oscillators[channel]? = some ⟨settings, timer⟩ := by
  rw [← clocked.channels, List.getElem?_map] at here
  obtain ⟨⟨_, timer⟩, found, rfl⟩ := Option.map_eq_some_iff.mp here
  exact ⟨timer, found⟩

theorem Clocked.exists_phase (clocked : simulation.Clocked target sampleRate)
    (here : target.channels[channel]? = some settings) :
    ∃ phase, simulation.elapsed[channel]? = some phase ∧ phase < 0x10000 * sampleRate := by
  have inside := (List.getElem?_eq_some_iff.mp here).1
  rw [← clocked.counted] at inside
  exact ⟨_, List.getElem?_eq_getElem inside, clocked.early _ (List.getElem_mem inside)⟩

theorem clocked_of_start {song : Song} (started : start song target sampleRate = .ok simulation) :
    simulation.Clocked target sampleRate := by
  unfold start at started
  split at started
  · cases started
  next some =>
    split at started
    next device playback resets starts =>
      cases started
      refine ⟨Nat.pos_of_ne_zero some, rfl, Device.channels_of_reset resets, List.length_map _, ?_⟩
      intro phase member
      obtain ⟨_, -, rfl⟩ := List.mem_map.mp member
      exact Nat.mul_pos (by decide) (Nat.pos_of_ne_zero some)
    · cases started

/-- A sample has the interrupts of every timer. -/
theorem Clocked.fired (clocked : simulation.Clocked target sampleRate)
    (due : simulation.timed? = some timed) {oscillator : Oscillator}
    (here : timed.device.oscillators[channel]? = some oscillator)
    (counted : simulation.elapsed[channel]? = some phase) :
    timed.interrupts.count channel = (runTimer sampleRate oscillator phase).1 := by
  obtain ⟨clockedTimed, same⟩ := clocked.due due
  rw [← clockedTimed.rate]
  exact count_interrupts here (same ▸ counted)

theorem Clocked.sample (clocked : simulation.Clocked target sampleRate)
    (due : simulation.timed? = some timed) (taken : simulation.next = .sample value next)
    {oscillator : Oscillator} (here : timed.device.oscillators[channel]? = some oscillator)
    (counted : simulation.elapsed[channel]? = some phase) :
    next.elapsed[channel]? = some (runTimer sampleRate oscillator phase).2 := by
  obtain ⟨clockedTimed, same⟩ := clocked.due due
  rw [next_eq_takeSample due] at taken
  obtain ⟨mixer, -, rfl⟩ := takeSample_eq_sample taken
  rw [← clockedTimed.rate]
  exact getElem?_elapsedAfter here (same ▸ counted)

/-- While a timer keeps its period, all that it counts is either taken off in interrupts or left. -/
theorem Clocked.conserves (clocked : simulation.Clocked target sampleRate) {period : UInt16}
    (run : simulation.Run samples last) (counted : simulation.elapsed[channel]? = some phase)
    (keeps : ∀ timed ∈ samples,
      timed.device.oscillators[channel]? = some ⟨settings, ⟨period, true⟩⟩) :
    ∃ rest, last.elapsed[channel]? = some rest ∧
      rest + interval sampleRate period * (samples.flatMap interrupts).count channel =
        phase + samples.length * settings.timerClock.toNat ∧
      (samples ≠ [] ∨ phase < interval sampleRate period → rest < interval sampleRate period) := by
  induction run generalizing phase with
  | none => exact ⟨phase, counted, by simp, fun early => early.resolve_left (· rfl)⟩
  | @sample simulation timed value next later last due taken _ ih =>
    obtain ⟨here, others⟩ := List.forall_mem_cons.mp keeps
    have fired := clocked.fired due here counted
    have left := clocked.sample due taken here counted
    rw [runTimer_of_running clocked.positive rfl] at fired left
    simp only at fired left
    have clockedNext : next.Clocked target sampleRate := clocked.run (.sample due taken .none)
    obtain ⟨rest, ends, total, early⟩ := ih clockedNext left others
    refine ⟨rest, ends, ?_, fun _ => early (.inr (Nat.mod_lt _ (interval_pos clocked.positive _)))⟩
    -- what this sample leaves is what the later ones start with, so the two balances add up
    have first := Nat.mod_add_div (phase + settings.timerClock.toNat) (interval sampleRate period)
    rw [List.flatMap_cons, List.count_append, fired, List.length_cons, Nat.mul_add, Nat.succ_mul]
    omega

/-- The interrupts of a timer that keeps its period are those of the whole time. -/
theorem Clocked.counts (clocked : simulation.Clocked target sampleRate) {period : UInt16}
    (run : simulation.Run samples last) (some : samples ≠ [])
    (counted : simulation.elapsed[channel]? = .some phase)
    (keeps : ∀ timed ∈ samples,
      timed.device.oscillators[channel]? = .some ⟨settings, ⟨period, true⟩⟩) :
    (samples.flatMap interrupts).count channel =
        (phase + samples.length * settings.timerClock.toNat) / interval sampleRate period ∧
      last.elapsed[channel]? =
        .some ((phase + samples.length * settings.timerClock.toNat) % interval sampleRate period) := by
  obtain ⟨rest, ends, total, early⟩ := clocked.conserves run counted keeps
  obtain ⟨fired, left⟩ :=
    (Nat.div_mod_unique (interval_pos clocked.positive period)).mpr ⟨total, early (.inl some)⟩
  exact ⟨fired.symm, by rw [ends, left]⟩

end Clocked

/-! How far the ticks are counted. -/

/-- Whether a simulation plays a song that lasts for some ticks, and the time that has gone by since the last
tick began is not longer than a tick, up to a sample for each of them. -/
structure Paced (song : Song) (count sampleRate : Nat) (simulation : Simulation) : Prop where
  onTime : ∃ elapsed, Playback.OnTime song.part? count elapsed simulation.playback
  tick : simulation.tickLength ≤ 0x10000 * sampleRate
  late : simulation.tickPhase + simulation.playback.ticksLeft * sampleLength ≤
    simulation.tickLength + (song.passTicks count + 1) * sampleLength

section Paced

variable {song : Song} {count sampleRate : Nat} {simulation timed next last : Simulation} {value : UInt8}
  {samples : List Simulation}

theorem Paced.ticksLeft_le (paced : simulation.Paced song count sampleRate) :
    simulation.playback.ticksLeft ≤ song.passTicks count := by
  obtain ⟨elapsed, onTime⟩ := paced.onTime
  rw [Playback.ticksLeft_of_onTime onTime]
  exact Nat.sub_le _ _

theorem Paced.due (paced : simulation.Paced song count sampleRate)
    (due : simulation.timed? = some timed) : timed.Paced song count sampleRate := by
  have late := paced.late
  rcases timed?_eq_some due with ⟨within, rfl⟩ | ⟨past, tick, device, ticks, played, -, rfl⟩
  -- no tick is due, so this sample is the only one that the phase is ahead by
  · refine { paced with late := ?_ }
    have left := Nat.mul_le_mul_right sampleLength paced.ticksLeft_le
    simp only [Nat.succ_mul]
    omega
  · obtain ⟨elapsed, onTime⟩ := paced.onTime
    obtain ⟨other, same, later, plays, left, -⟩ := Playback.tick_ticksLeft onTime
    rw [ticks, Option.some.injEq] at same
    subst same
    refine ⟨⟨_, later⟩, paced.tick, ?_⟩
    obtain ⟨others, before⟩ := Nat.exists_eq_succ_of_ne_zero (Nat.ne_of_gt (plays.mp played))
    rw [before, Nat.succ_mul] at late
    simp only [left, before, Nat.succ_sub_one]
    omega

theorem Paced.run (paced : simulation.Paced song count sampleRate) (run : simulation.Run samples last) :
    last.Paced song count sampleRate := by
  induction run with
  | none => exact paced
  | sample due taken _ ih =>
    rw [next_eq_takeSample due] at taken
    obtain ⟨mixer, -, rfl⟩ := takeSample_eq_sample taken
    exact ih { paced.due due with }

theorem paced_of_start {bytes : List UInt8} (loaded : Song.ofBytes bytes = .ok song) {target : Target}
    (started : start song target sampleRate = .ok simulation) :
    simulation.Paced song target.channels.length sampleRate := by
  obtain ⟨other, starts, onTime⟩ := Playback.start_onTime loaded target.channels.length
  unfold start at started
  split at started
  · cases started
  · split at started
    next device playback resets found =>
      cases started
      rw [found, Option.some.injEq] at starts
      subst starts
      refine ⟨⟨0, onTime⟩, ?_, ?_⟩
      · have small := playback.tempo.toNat_lt
        apply Nat.mul_le_mul_right
        rw [Tempo.tickMicros, sliceMicros]
        omega
      · have ticks : playback.ticksLeft = song.passTicks target.channels.length :=
          Playback.ticksLeft_of_onTime onTime
        simp only [ticks, Nat.succ_mul]
        omega
    · cases started

/-- No count of ticks is larger than a word of 64 bits. -/
theorem Paced.fits (paced : simulation.Paced song count sampleRate) {bytes : List UInt8}
    (loaded : Song.ofBytes bytes = .ok song) (word : sampleRate < 2 ^ 32) :
    simulation.tickLength < 2 ^ 64 ∧ simulation.tickPhase + sampleLength < 2 ^ 64 := by
  have ticks := Song.passTicks_lt loaded count
  have tick := paced.tick
  have late := paced.late
  simp only [sampleLength] at late ⊢
  constructor
  · omega
  · omega

end Paced

/-- Simulated timers keep time. Whenever a timer keeps its period for some samples, its interrupts are those
of all the cycles that it has counted, and what it has counted since the last of them is the rest. The loop of
every sample ends, a timer that is stopped starts over, and neither the counts of the timers nor, for a loaded
song, those of the ticks are larger than a word of 64 bits. -/
theorem timers_keep_time {song : Song} {target : Target} {sampleRate : Nat} (word : sampleRate < 2 ^ 32)
    {first simulation : Simulation} (started : start song target sampleRate = .ok first)
    {earlier : List Simulation} (reached : first.Run earlier simulation) :
    (∀ channel settings, target.channels[channel]? = some settings →
      ∃ phase, simulation.elapsed[channel]? = some phase ∧
        (∀ period samples last, simulation.Run samples last → samples ≠ [] →
          (∀ timed ∈ samples,
            timed.device.oscillators[channel]? = some ⟨settings, ⟨period, true⟩⟩) →
            (samples.flatMap interrupts).count channel =
                (phase + samples.length * settings.timerClock.toNat) / interval sampleRate period ∧
              last.elapsed[channel]? =
                some ((phase + samples.length * settings.timerClock.toNat) %
                  interval sampleRate period)) ∧
        (∀ timed, simulation.timed? = some timed →
          (∀ value next, simulation.next = .sample value next →
            timed.interrupts.foldlM Mixer.flip timed.device.mixer = some next.device.mixer) ∧
          ∃ timer, timed.device.oscillators[channel]? = some ⟨settings, timer⟩ ∧
            (timer.running = true → ∃ rest,
              Countdown (interval sampleRate timer.period) (phase + settings.timerClock.toNat)
                (timed.interrupts.count channel) rest ∧
              ∀ value next, simulation.next = .sample value next → next.elapsed[channel]? = some rest) ∧
            (timer.running = false → timed.interrupts.count channel = 0 ∧
              ∀ value next, simulation.next = .sample value next → next.elapsed[channel]? = some 0)) ∧
        phase + settings.timerClock.toNat < 2 ^ 64) ∧
      (∀ period, interval sampleRate period < 2 ^ 64) ∧
      ∀ bytes, Song.ofBytes bytes = .ok song →
        simulation.tickLength < 2 ^ 64 ∧ simulation.tickPhase + sampleLength < 2 ^ 64 := by
  have clocked := (clocked_of_start started).run reached
  refine ⟨?_, ?_, ?_⟩
  · intro channel settings here
    obtain ⟨phase, counted, early⟩ := clocked.exists_phase here
    refine ⟨phase, counted, ?_, ?_, ?_⟩
    · exact fun period samples last run some keeps => clocked.counts run some counted keeps
    · intro timed due
      obtain ⟨timer, found⟩ := (clocked.due due).1.exists_timer here
      have fired := clocked.fired due found counted
      refine ⟨fun value next taken => flips_of_next due taken, timer, found, ?_, ?_⟩
      · intro runs
        refine ⟨_, ?_, fun value next taken => clocked.sample due taken found counted⟩
        rw [fired, runTimer_of_running clocked.positive runs]
        exact countdown_of_pos (interval_pos clocked.positive _) _
      · intro stopped
        refine ⟨by rw [fired, runTimer_of_stopped stopped], fun value next taken => ?_⟩
        rw [clocked.sample due taken found counted, runTimer_of_stopped stopped]
    · have clock := settings.timerClock.toNat_lt
      omega
  · intro period
    have most := interval_le sampleRate period
    omega
  · intro bytes loaded
    exact ((paced_of_start loaded started).run reached).fits loaded word

/-- A song with one tone of four ticks of 256 µs. -/
def oneTone : List UInt8 := [0x00, 0x00, 0x09, 0x00, 0x08, 0x00, 0x00, 0x00, 0xff, 0x03]

/-- That song at eight samples in a second, before the first of them. -/
def beforeTone : Simulation :=
  { playback := ⟨0, [⟨some [0x00, 0xff, 0x03], ⟨[0x03], 0, 0⟩, 0, .rest, 0⟩, .ended]⟩
    device :=
      { oscillators := [⟨⟨1000, #[50], 0⟩, ⟨0, false⟩⟩, ⟨⟨1000, #[50, 40], 0⟩, ⟨0, false⟩⟩]
        mixer := { Mixer.start 2 Device.pair.levels 7 with duty := some 12 } }
    pwmTop := 15
    sampleRate := 8
    tickLength := 2048
    tickPhase := 2048
    elapsed := [0, 0] }

/-- The same simulation while the tone sounds. -/
def inTone (left tickPhase phase level : Nat) : Simulation :=
  { beforeTone with
    playback := ⟨0, [⟨some [0xff, 0x03], ⟨[], 3, 0⟩, 0, .tone 0, left⟩, .ended]⟩
    device :=
      { oscillators := [⟨⟨1000, #[50], 0⟩, ⟨50, true⟩⟩, ⟨⟨1000, #[50, 40], 0⟩, ⟨0, false⟩⟩]
        mixer := { Mixer.start 2 Device.pair.levels 7 with level, duty := some (UInt8.ofNat level) } }
    tickPhase
    elapsed := [phase, 0] }

/-- A sample takes 125 cycles of the clock and an interrupt comes every 51, all of them counted eight times. The
first sample leaves 23 cycles, so the two after it have five interrupts, and leave 18. -/
theorem oneTone_keeps_time :
    Song.ofBytes oneTone = .ok ⟨oneTone⟩ ∧ start ⟨oneTone⟩ Device.pair 8 = .ok beforeTone ∧
      ∃ earlier samples last, beforeTone.Run earlier (inTone 3 1000000 184 12) ∧
        (inTone 3 1000000 184 12).Run samples last ∧ samples.length = 2 ∧
        (samples.flatMap interrupts).count 0 = 5 ∧ last.elapsed[0]? = some 144 ∧
        (inTone 3 1000000 184 12).tickPhase + sampleLength < 2 ^ 64 := by
  have loaded : Song.ofBytes oneTone = .ok ⟨oneTone⟩ := by cbv
  have started : start ⟨oneTone⟩ Device.pair 8 = .ok beforeTone := by cbv
  have reached : beforeTone.Run [inTone 3 1000000 0 12] (inTone 3 1000000 184 12) :=
    .sample (by cbv) (show _ = Step.sample 204 _ by cbv) .none
  have run : (inTone 3 1000000 184 12).Run [inTone 2 1997952 184 12, inTone 1 2995904 368 12]
      (inTone 1 2995904 144 13) :=
    .sample (by cbv) (show _ = Step.sample 204 (inTone 2 1997952 368 12) by cbv)
      (.sample (by cbv) (show _ = Step.sample 221 _ by cbv) .none)
  obtain ⟨timers, -, ticks⟩ := timers_keep_time (by decide) started reached
  obtain ⟨phase, counted, counts, -⟩ := timers 0 ⟨1000, #[50], 0⟩ rfl
  have same : phase = 184 := (Option.some.inj counted).symm
  subst same
  obtain ⟨fired, left⟩ := counts 50 _ _ run (List.cons_ne_nil _ _) (by
    intro timed member
    simp only [List.mem_cons, List.not_mem_nil, or_false] at member
    rcases member with rfl | rfl <;> rfl)
  exact ⟨loaded, started, _, _, _, reached, run, rfl, fired, left, (ticks _ loaded).2⟩

end Simulation

end Buzzer
