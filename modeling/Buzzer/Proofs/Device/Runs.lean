import Buzzer.Proofs.Device.Mixing
import Buzzer.Target.Basic

/-!
Everything that a device can go through: resets, changes of what its channels play, and interrupts of the
timers that are running, in any order. After every one of them each timer does what the latest change of
its channel calls for, a channel whose timer is stopped is off, and the output shows the level.
-/
namespace Buzzer

/-- Something that happens to a device. -/
inductive Action where
  | reset
  | change (change : Change)
  | interrupt (channel : Nat)

namespace Action

/-- Whether an action settles what a channel plays from then on. -/
def concerns (channel : Nat) : Action → Bool
  | .reset => true
  | .change heard => heard.channel = channel
  | .interrupt _ => false

/-- The latest action that concerns a channel, in a history that has the latest action first. -/
def latest? (channel : Nat) (history : List Action) : Option Action :=
  history.find? (·.concerns channel)

section

variable {channel : Nat} {action : Action}

theorem latest?_of_concerns (mine : action.concerns channel = true) (history : List Action) :
    latest? channel (action :: history) = some action :=
  List.find?_cons_of_pos mine

theorem latest?_of_not_concerns (other : action.concerns channel = false) (history : List Action) :
    latest? channel (action :: history) = latest? channel history :=
  List.find?_cons_of_neg (by rw [other]; exact Bool.false_ne_true)

end

end Action

/-- Whether an action does no more than start a tone that its channel can play. -/
def Target.starts (target : Target) : Action → Bool
  | .change (.note channel note) =>
    (target.channels[channel]?).any fun settings => (note.pitch?.bind settings.period?).isSome
  | _ => false

namespace Oscillator

/-- Whether a timer does what the latest action that concerns its channel calls for. -/
def Follows (oscillator : Oscillator) : Option Action → Prop
  | some (.change (.note _ note)) =>
    oscillator.timer.running = oscillator.sounds note ∧
      ∀ period ∈ oscillator.period? note, oscillator.timer.period = period
  | _ => oscillator.timer.running = false

theorem follows_play (oscillator : Oscillator) (channel : Nat) (note : Note) :
    (oscillator.play note).Follows (some (.change (.note channel note))) := by
  have same : (oscillator.play note).period? note = oscillator.period? note := rfl
  unfold Follows
  simp only [sounds, same]
  cases found : oscillator.period? note with
  | none => exact ⟨by simp only [play, calls, found]; rfl, by simp⟩
  | some period =>
    refine ⟨by simp only [play, calls, found]; rfl, ?_⟩
    intro other member
    cases member
    simp only [play, calls, found]
    rfl

end Oscillator

namespace Device

/-- What an action does to a device. -/
def act (device : Device) : Action → Outcome
  | .reset => device.reset
  | .change heard => device.hear heard
  | .interrupt channel => device.interrupt channel

/-- Whether an action can happen to a device. Only timers that are running interrupt. -/
def Allows (device : Device) : Action → Prop
  | .reset => True
  | .change heard => heard.channel < device.oscillators.length
  | .interrupt channel => channel ∈ device.running

instance (device : Device) (action : Action) : Decidable (device.Allows action) :=
  match action with
  | .reset => .isTrue trivial
  | .change heard => inferInstanceAs (Decidable (heard.channel < device.oscillators.length))
  | .interrupt channel => inferInstanceAs (Decidable (channel ∈ device.running))

/-- The devices that are reached from one by the actions of a history, the latest first. -/
inductive Reached (start : Device) : List Action → Device → Prop where
  | start : Reached start [] start
  | step {history device action next} (before : Reached start history device)
      (allowed : device.Allows action) (done : device.act action = .done next) :
      Reached start (action :: history) next

/-- Whether a device is made for a target, whatever its timers do and whatever its level is. -/
structure MadeFor (target : Target) (device : Device) : Prop where
  channels : device.oscillators.map Oscillator.channel = target.channels
  count : device.mixer.channels = target.channels.length
  levels : device.mixer.levels = target.levels
  volume : device.mixer.volume = target.volume.toNat % 4

/-- Whether a device is made for a target, with every timer stopped and a mixer that is not in use. -/
structure Fresh (target : Target) (device : Device) : Prop where
  channels : device.oscillators.map Oscillator.channel = target.channels
  stopped : ∀ oscillator ∈ device.oscillators, oscillator.timer.running = false
  mixer : device.mixer = Mixer.start target.channels.length target.levels target.volume

/-- What holds of a device after every action. -/
structure Kept (target : Target) (history : List Action) (device : Device) : Prop where
  made : device.MadeFor target
  follows : ∀ (channel : Nat) (oscillator : Oscillator), device.oscillators[channel]? = some oscillator →
    oscillator.Follows (Action.latest? channel history)
  silent : ∀ (channel : Nat) (oscillator : Oscillator), device.oscillators[channel]? = some oscillator →
    oscillator.timer.running = false → device.mixer.level.testBit channel = false
  selected : device.mixer.level >>> target.channels.length = target.volume.toNat % 4
  written : device.mixer.duty =
    if history.all target.starts then none else target.levels[device.mixer.level]?

variable {target : Target} {device : Device} {history : List Action}

/-- Changing the timer of one oscillator leaves all channels as they are. -/
theorem channels_of_set {oscillators : List Oscillator} {channel : Nat} {oscillator changed : Oscillator}
    (here : oscillators[channel]? = some oscillator) (same : changed.channel = oscillator.channel) :
    (oscillators.set channel changed).map Oscillator.channel = oscillators.map Oscillator.channel := by
  have found : (oscillators.map Oscillator.channel)[channel]? = some changed.channel := by
    rw [List.getElem?_map, here, Option.map_some, same]
  obtain ⟨inside, kept⟩ := List.getElem?_eq_some_iff.mp found
  rw [List.map_set, ← kept, List.set_getElem_self inside]

theorem mem_running {channel : Nat} : channel ∈ device.running ↔
    ∃ oscillator, device.oscillators[channel]? = some oscillator ∧ oscillator.timer.running = true := by
  unfold running
  rw [List.mem_filter, List.mem_range]
  constructor
  · rintro ⟨inside, runs⟩
    rw [List.getElem?_eq_getElem inside] at runs ⊢
    exact ⟨_, rfl, runs⟩
  · rintro ⟨oscillator, here, runs⟩
    refine ⟨(List.getElem?_eq_some_iff.mp here).1, ?_⟩
    rw [here]
    exact runs

namespace MadeFor

theorem length_eq (made : device.MadeFor target) :
    device.oscillators.length = target.channels.length := by
  rw [← made.channels, List.length_map]

theorem lt_length (made : device.MadeFor target) {channel : Nat} {oscillator : Oscillator}
    (here : device.oscillators[channel]? = some oscillator) : channel < target.channels.length := by
  rw [← made.length_eq]
  exact (List.getElem?_eq_some_iff.mp here).1

theorem channel_eq (made : device.MadeFor target) {channel : Nat} {oscillator : Oscillator}
    (here : device.oscillators[channel]? = some oscillator) :
    target.channels[channel]? = some oscillator.channel := by
  rw [← made.channels, List.getElem?_map, here, Option.map_some]

theorem starts_note (made : device.MadeFor target) {channel : Nat} {oscillator : Oscillator}
    (here : device.oscillators[channel]? = some oscillator) (note : Note) :
    target.starts (.change (.note channel note)) = oscillator.sounds note := by
  unfold Target.starts
  simp only
  rw [made.channel_eq here]
  rfl

/-- Changing one timer leaves the device made for its target. -/
theorem set (made : device.MadeFor target) {channel : Nat} {oscillator : Oscillator}
    (here : device.oscillators[channel]? = some oscillator) (changed : Oscillator)
    (same : changed.channel = oscillator.channel) :
    ({ device with oscillators := device.oscillators.set channel changed } : Device).MadeFor target := by
  exact { made with channels := (channels_of_set here same).trans made.channels }

/-- A mixer that is reset keeps nothing but the volume. -/
theorem mixer_reset (made : device.MadeFor target) : device.mixer.reset =
    device.mixer.store ((target.volume.toNat % 4) <<< target.channels.length) := by
  rw [Mixer.reset, made.volume, made.count]

/-- Taking over a level of the target's volume cannot fail. -/
theorem mix (made : device.MadeFor target) (size : target.levels.size = 4 <<< target.channels.length)
    {level : Nat} (volume : level >>> target.channels.length = target.volume.toNat % 4) :
    ∃ next, device.mix (device.mixer.store level) = .done next ∧ next.MadeFor target ∧
      next.oscillators = device.oscillators ∧ next.mixer.level = level ∧
      next.mixer.duty = target.levels[level]? := by
  have tabled : device.mixer.Tabled :=
    ⟨by rw [made.volume]; exact Nat.mod_lt _ (by decide), by rw [made.levels, made.count, size]⟩
  obtain ⟨duty, found, stored⟩ :=
    Mixer.store_of_volume tabled (by rw [made.count, made.volume, volume])
  rw [stored]
  exact ⟨_, rfl, { made with }, rfl, rfl, by rw [← made.levels, found]⟩

end MadeFor

theorem Fresh.kept (fresh : device.Fresh target) : device.Kept target [] := by
  have stopped : ∀ (channel : Nat) (oscillator : Oscillator),
      device.oscillators[channel]? = some oscillator → oscillator.timer.running = false :=
    fun channel oscillator here => fresh.stopped oscillator (List.mem_of_getElem? here)
  have level : device.mixer.level = (target.volume.toNat % 4) <<< target.channels.length := by
    rw [fresh.mixer]
    rfl
  refine ⟨⟨fresh.channels, ?_, ?_, ?_⟩, stopped, ?_, ?_, ?_⟩
  · rw [fresh.mixer]
    rfl
  · rw [fresh.mixer]
    rfl
  · rw [fresh.mixer]
    rfl
  · intro channel oscillator here _
    have inside : channel < target.channels.length := by
      rw [← fresh.channels, List.length_map]
      exact (List.getElem?_eq_some_iff.mp here).1
    rw [level]
    exact testBit_shiftLeft_of_lt _ inside
  · rw [level, Nat.shiftLeft_shiftRight]
  · rw [fresh.mixer]
    rfl

/-- A change only touches the timer of its own channel. -/
theorem Kept.follows_set (kept : device.Kept target history) (heard : Change) {changed : Oscillator}
    (follows : changed.Follows (some (.change heard))) (channel : Nat) (oscillator : Oscillator)
    (here : (device.oscillators.set heard.channel changed)[channel]? = some oscillator) :
    oscillator.Follows (Action.latest? channel (.change heard :: history)) := by
  rw [List.getElem?_set] at here
  by_cases mine : heard.channel = channel
  · have settles : (Action.change heard).concerns channel = true := decide_eq_true mine
    rw [Action.latest?_of_concerns settles]
    rw [if_pos mine] at here
    split at here
    · cases here
      exact follows
    · cases here
  · have settles : (Action.change heard).concerns channel = false := decide_eq_false mine
    rw [Action.latest?_of_not_concerns settles]
    rw [if_neg mine] at here
    exact kept.follows channel oscillator here

theorem Kept.silent_set (kept : device.Kept target history) {channel level : Nat} {changed : Oscillator}
    (own : changed.timer.running = false → level.testBit channel = false)
    (others : ∀ other, channel ≠ other → device.mixer.level.testBit other = false →
      level.testBit other = false) (other : Nat) (oscillator : Oscillator)
    (here : (device.oscillators.set channel changed)[other]? = some oscillator)
    (stopped : oscillator.timer.running = false) : level.testBit other = false := by
  rw [List.getElem?_set] at here
  by_cases mine : channel = other
  · rw [if_pos mine] at here
    split at here
    · cases here
      exact mine ▸ own stopped
    · cases here
  · rw [if_neg mine] at here
    exact others other mine (kept.silent other oscillator here stopped)

theorem Kept.latest_of_running (kept : device.Kept target history) {channel : Nat}
    {oscillator : Oscillator} (here : device.oscillators[channel]? = some oscillator)
    (runs : oscillator.timer.running = true) :
    ∃ pitch period, Action.latest? channel history = some (.change (.note channel (.tone pitch))) ∧
      oscillator.channel.period? pitch = some period := by
  have follows := kept.follows channel oscillator here
  unfold Oscillator.Follows at follows
  split at follows
  next other note latest =>
    have mine : (Action.change (.note other note)).concerns channel = true := List.find?_some latest
    have same : other = channel := of_decide_eq_true mine
    have sounds := follows.1.symm.trans runs
    cases note with
    | rest => cases sounds
    | tone pitch =>
      obtain ⟨period, found⟩ := Option.isSome_iff_exists.mp sounds
      exact ⟨pitch, period, same ▸ latest, found⟩
  next => exact (Bool.false_ne_true (follows.symm.trans runs)).elim

theorem Kept.running_iff (kept : device.Kept target history) {channel : Nat} {oscillator : Oscillator}
    (here : device.oscillators[channel]? = some oscillator) :
    oscillator.timer.running = true ↔ ∃ pitch period,
      Action.latest? channel history = some (.change (.note channel (.tone pitch))) ∧
        oscillator.channel.period? pitch = some period := by
  refine ⟨kept.latest_of_running here, ?_⟩
  rintro ⟨pitch, period, latest, found⟩
  have follows := kept.follows channel oscillator here
  rw [latest] at follows
  exact follows.1.trans (Option.isSome_of_eq_some found)

theorem Kept.period_eq (kept : device.Kept target history) {channel : Nat} {oscillator : Oscillator}
    (here : device.oscillators[channel]? = some oscillator) (pitch : Nat) (period : UInt16)
    (latest : Action.latest? channel history = some (.change (.note channel (.tone pitch))))
    (found : oscillator.channel.period? pitch = some period) : oscillator.timer.period = period := by
  have follows := kept.follows channel oscillator here
  rw [latest] at follows
  exact follows.2 period found

section Steps

variable (size : target.levels.size = 4 <<< target.channels.length)

include size

/-- The level has a duty cycle. -/
theorem Kept.level_lt (kept : device.Kept target history) :
    device.mixer.level < target.levels.size := by
  rw [size]
  apply shiftRight_lt_iff.mp
  rw [kept.selected]
  exact Nat.mod_lt _ (by decide)

/-- A level that fits the timers is taken over and shown. -/
theorem MadeFor.kept_of_mix (made : device.MadeFor target) {level : Nat} {action : Action}
    (selected : level >>> target.channels.length = target.volume.toNat % 4)
    (shows : target.starts action = false)
    (follows : ∀ (channel : Nat) (oscillator : Oscillator),
      device.oscillators[channel]? = some oscillator →
        oscillator.Follows (Action.latest? channel (action :: history)))
    (silent : ∀ (channel : Nat) (oscillator : Oscillator),
      device.oscillators[channel]? = some oscillator → oscillator.timer.running = false →
        level.testBit channel = false) :
    ∃ next, device.mix (device.mixer.store level) = .done next ∧
      next.Kept target (action :: history) := by
  obtain ⟨next, done, madeNext, oscillators, levelNext, duty⟩ := made.mix size selected
  refine ⟨next, done, madeNext, ?_, ?_, ?_, ?_⟩
  · rwa [oscillators]
  · rwa [oscillators, levelNext]
  · rwa [levelNext]
  · rw [duty, levelNext, List.all_cons, shows, Bool.false_and, if_neg Bool.false_ne_true]

/-- A reset leaves nothing of what the device did before. -/
theorem MadeFor.reset (made : device.MadeFor target) (history : List Action) :
    ∃ next, device.reset = .done next ∧ next.Kept target (.reset :: history) := by
  have madeStopped : ({ device with oscillators := device.oscillators.map Oscillator.stop } :
      Device).MadeFor target := by
    refine { made with channels := ?_ }
    rw [List.map_map, ← made.channels]
    rfl
  rw [Device.reset, made.mixer_reset]
  refine madeStopped.kept_of_mix size (Nat.shiftLeft_shiftRight _ _) rfl ?_ ?_
  · intro channel oscillator here
    rw [List.getElem?_map, Option.map_eq_some_iff] at here
    obtain ⟨before, -, rfl⟩ := here
    rw [Action.latest?_of_concerns rfl]
    rfl
  · intro channel oscillator here _
    exact testBit_shiftLeft_of_lt _ (madeStopped.lt_length here)

/-- A note that its channel can play starts the timer and leaves the level to the interrupts. Any other
stops the timer and turns the channel off. -/
theorem Kept.hear_note (kept : device.Kept target history) {channel : Nat}
    (inside : channel < device.oscillators.length) (note : Note) :
    ∃ next, device.hear (.note channel note) = .done next ∧
      next.Kept target (.change (.note channel note) :: history) := by
  have here : device.oscillators[channel]? = some device.oscillators[channel] :=
    List.getElem?_eq_getElem inside
  have madePlayed := kept.made.set here (device.oscillators[channel].play note) rfl
  have follows := kept.follows_set (.note channel note)
    (device.oscillators[channel].follows_play channel note)
  have starts := kept.made.starts_note here note
  simp only [hear, here]
  cases sounds : device.oscillators[channel].sounds note with
  | true =>
    have runs : (device.oscillators[channel].play note).timer.running = true :=
      (device.oscillators[channel].follows_play channel note).1.trans sounds
    refine ⟨_, rfl, madePlayed, follows, ?_, kept.selected, ?_⟩
    · refine kept.silent_set ?_ fun _ _ silent => silent
      intro stopped
      rw [runs] at stopped
      cases stopped
    · rw [List.all_cons, starts, sounds, Bool.true_and]
      exact kept.written
  | false =>
    refine madePlayed.kept_of_mix size ?_ (starts.trans sounds) follows ?_
    · rw [clearBit_shiftRight _ (kept.made.length_eq ▸ inside)]
      exact kept.selected
    · refine kept.silent_set ?_ ?_
      · intro _
        rw [testBit_clearBit, decide_eq_false (not_not_intro rfl), Bool.and_false]
      · intro other _ silent
        rw [testBit_clearBit, silent, Bool.false_and]

theorem Kept.hear_trackEnd (kept : device.Kept target history) {channel : Nat}
    (inside : channel < device.oscillators.length) :
    ∃ next, device.hear (.trackEnd channel) = .done next ∧
      next.Kept target (.change (.trackEnd channel) :: history) := by
  have here : device.oscillators[channel]? = some device.oscillators[channel] :=
    List.getElem?_eq_getElem inside
  have madeStopped := kept.made.set here device.oscillators[channel].stop rfl
  have stops : device.oscillators[channel].stop.Follows (some (.change (.trackEnd channel))) := rfl
  have follows := kept.follows_set (.trackEnd channel) stops
  simp only [hear, here, kept.made.mixer_reset]
  refine madeStopped.kept_of_mix size (Nat.shiftLeft_shiftRight _ _) rfl follows ?_
  intro other oscillator found _
  exact testBit_shiftLeft_of_lt _ (madeStopped.lt_length found)

/-- An interrupt flips the bit of a channel that is running, and no other. -/
theorem Kept.interrupt (kept : device.Kept target history) {channel : Nat}
    (runs : channel ∈ device.running) :
    ∃ next, device.interrupt channel = .done next ∧
      next.Kept target (.interrupt channel :: history) := by
  obtain ⟨oscillator, here, running⟩ := mem_running.mp runs
  refine kept.made.kept_of_mix size ?_ rfl ?_ ?_
  · rw [flip_shiftRight _ (kept.made.lt_length here)]
    exact kept.selected
  · intro other found there
    rw [Action.latest?_of_not_concerns rfl]
    exact kept.follows other found there
  · intro other found there stopped
    have different : channel ≠ other := by
      rintro rfl
      rw [here, Option.some.injEq] at there
      rw [← there, running] at stopped
      cases stopped
    rw [testBit_flip, kept.silent other found there stopped, decide_eq_false different]
    rfl

/-- Whatever can happen to a device comes to its end and keeps what holds of it. -/
theorem Kept.act (kept : device.Kept target history) {action : Action}
    (allowed : device.Allows action) :
    ∃ next, device.act action = .done next ∧ next.Kept target (action :: history) := by
  cases action with
  | reset => exact kept.made.reset size history
  | change heard =>
    cases heard with
    | note channel note => exact kept.hear_note size allowed note
    | trackEnd channel => exact kept.hear_trackEnd size allowed
  | interrupt channel => exact kept.interrupt size allowed

theorem kept_of_reached {start : Device} (fresh : start.Fresh target)
    (reached : Reached start history device) : device.Kept target history := by
  induction reached with
  | start => exact fresh.kept
  | step before allowed done ih =>
    obtain ⟨next, same, kept⟩ := ih.act size allowed
    rw [done] at same
    cases same
    exact kept

end Steps

/-- The device of a target after any actions. A timer is running exactly if the latest action that concerns
its channel was a tone with a period, which is then the timer's; a channel whose timer is stopped is off;
the level keeps the volume and has a duty cycle, which the output shows as soon as something other than the
start of a tone has happened; and nothing that can happen fails. -/
theorem reached_keeps_time {start : Device} (size : target.levels.size = 4 <<< target.channels.length)
    (fresh : start.Fresh target) (reached : Reached start history device) :
    (∀ (channel : Nat) (settings : Channel), target.channels[channel]? = some settings →
      ∃ oscillator, device.oscillators[channel]? = some oscillator ∧
        (oscillator.timer.running = true ↔ ∃ pitch period,
          Action.latest? channel history = some (.change (.note channel (.tone pitch))) ∧
            settings.period? pitch = some period) ∧
        (∀ pitch period,
          Action.latest? channel history = some (.change (.note channel (.tone pitch))) →
            settings.period? pitch = some period → oscillator.timer.period = period) ∧
        (oscillator.timer.running = false → device.mixer.level.testBit channel = false)) ∧
      device.mixer.level >>> target.channels.length = target.volume.toNat % 4 ∧
      device.mixer.level < target.levels.size ∧
      device.mixer.duty =
        (if history.all target.starts then none else target.levels[device.mixer.level]?) ∧
      ∀ action, device.Allows action → ∃ next, device.act action = .done next := by
  have kept := kept_of_reached size fresh reached
  refine ⟨?_, kept.selected, kept.level_lt size, kept.written, ?_⟩
  · intro channel settings here
    have inside : channel < device.oscillators.length := by
      rw [kept.made.length_eq]
      exact (List.getElem?_eq_some_iff.mp here).1
    have found : device.oscillators[channel]? = some device.oscillators[channel] :=
      List.getElem?_eq_getElem inside
    have same := kept.made.channel_eq found
    rw [here, Option.some.injEq] at same
    subst same
    exact ⟨_, found, kept.running_iff found, kept.period_eq found, kept.silent channel _ found⟩
  · intro action allowed
    obtain ⟨next, done, -⟩ := kept.act size allowed
    exact ⟨next, done⟩

theorem fresh_device (target : Target) : target.device.Fresh target := by
  refine ⟨?_, ?_, rfl⟩
  · rw [Target.device, List.map_map]
    exact List.map_id _
  · intro oscillator member
    obtain ⟨channel, -, rfl⟩ := List.mem_map.mp member
    rfl

/-- A target of two channels at volume 3. Only the second one has a period for pitch 1. -/
def pair : Target :=
  { channels := [⟨1000, #[50], 0⟩, ⟨1000, #[50, 40], 0⟩]
    levels := #[0, 1, 2, 3, 4, 5, 6, 7, 8, 9, 10, 11, 12, 13, 14, 15]
    pwmTop := 15
    volume := 7 }

theorem pair_after_interrupt :
    ∃ device, Reached pair.device [.interrupt 1, .change (.note 0 (.tone 1)), .change (.note 1 (.tone 1))]
        device ∧
      device.mixer.level >>> 2 = 3 ∧ device.mixer.duty = some 14 := by
  have reached : Reached pair.device
      [.interrupt 1, .change (.note 0 (.tone 1)), .change (.note 1 (.tone 1))]
      { oscillators := [⟨⟨1000, #[50], 0⟩, ⟨0, false⟩⟩, ⟨⟨1000, #[50, 40], 0⟩, ⟨40, true⟩⟩]
        mixer := { Mixer.start 2 pair.levels 7 with level := 14, duty := some 14 } } :=
    .step (.step (.step .start (by decide) rfl) (by decide) rfl) (by decide) rfl
  obtain ⟨-, volume, -, written, -⟩ := reached_keeps_time rfl (fresh_device pair) reached
  exact ⟨_, reached, volume, written⟩

end Device

end Buzzer
