import Buzzer.Proofs.Device.Runs
import Buzzer.Proofs.Playback.Passes
import Buzzer.Target.Shipped

/-!
A loaded song played through on a device, with interrupts during every wait. A track that has ended has
stopped its timer and nothing starts it again, so the device is silent once the last track has ended.
-/
namespace Buzzer

namespace Action

/-- Whether the latest action that concerns a channel leaves its timer stopped, whatever it can play. -/
def Settled (channel : Nat) (history : List Action) : Prop :=
  ∀ note, latest? channel history ≠ some (.change (.note channel note))

/-- What comes after a settled channel leaves it settled unless it plays a note on it. -/
theorem settled_append {channel : Nat} {recent history : List Action}
    (silent : ∀ note, .change (.note channel note) ∉ recent)
    (settled : Settled channel history ∨ ∃ action ∈ recent, action.concerns channel = true) :
    Settled channel (recent ++ history) := by
  intro note found
  unfold latest? at found
  rw [List.find?_append] at found
  cases latest : recent.find? (·.concerns channel) with
  | some action =>
    rw [latest, Option.some_or, Option.some.injEq] at found
    exact silent note (found ▸ List.mem_of_find?_eq_some latest)
  | none =>
    rw [latest, Option.none_or] at found
    rcases settled with before | ⟨action, member, mine⟩
    · exact before note found
    · exact List.find?_eq_none.mp latest action member mine

/-- A part that ends at a tick has told so, and one that has ended before tells nothing more. -/
theorem settled_heard {parts : Nat → Option (List Event)}
    (lasting : ∀ channel events, parts channel = some events → ∀ event ∈ events, 0 < event.ticks)
    {count tick : Nat} {changes : List Change} (told : Playback.Told parts count tick changes)
    {channel : Nat} (inside : channel < count) (ends : partTicks (parts channel) ≤ tick + 1)
    {history : List Action} (settled : partTicks (parts channel) ≤ tick → Settled channel history) :
    Settled channel ((changes.map change).reverse ++ history) := by
  have among : ∀ heard, .change heard ∈ (changes.map change).reverse ↔ heard ∈ changes := by
    simp
  apply settled_append
  · intro note member
    obtain ⟨-, events, part, index, event, here, -, now⟩ :=
      (told.scheduled _).mp ((among _).mp member)
    have part : parts channel = some events := part
    have before := Event.onset_lt_total (lasting channel events part)
      (List.getElem?_eq_some_iff.mp here).1
    rw [part, partTicks] at ends
    omega
  · by_cases early : partTicks (parts channel) ≤ tick
    · exact .inl (settled early)
    · right
      cases part : parts channel with
      | none =>
        rw [part, partTicks] at early
        omega
      | some events =>
        rw [part, partTicks] at ends early
        have now : tick = Event.total events := by omega
        refine ⟨.change (.trackEnd channel), (among _).mpr ?_, decide_eq_true rfl⟩
        exact (told.scheduled _).mpr ⟨inside, events, part, now⟩

end Action

namespace Device

variable {target : Target} {device : Device} {history : List Action}

theorem running_of_interrupt {channel : Nat} {next : Device}
    (done : device.interrupt channel = .done next) : next.running = device.running := by
  unfold interrupt at done
  cases flipped : device.mixer.flip channel with
  | none =>
    rw [flipped] at done
    cases done
  | some mixer =>
    rw [flipped] at done
    cases done
    rfl

section Steps

variable (size : target.levels.size = 4 <<< target.channels.length)

include size

theorem Kept.hearAll? (kept : device.Kept target history) (changes : List Change)
    (inside : ∀ change ∈ changes, change.channel < target.channels.length) :
    ∃ next, device.hearAll? changes = some next ∧
      next.Kept target ((changes.map Action.change).reverse ++ history) := by
  induction changes generalizing device history with
  | nil => exact ⟨device, rfl, kept⟩
  | cons change changes ih =>
    rw [List.forall_mem_cons] at inside
    have allowed : device.Allows (.change change) := by
      rw [Allows, kept.made.length_eq]
      exact inside.1
    obtain ⟨heard, done, keptHeard⟩ := kept.act size allowed
    obtain ⟨next, rest, keptNext⟩ := ih keptHeard inside.2
    refine ⟨next, ?_, ?_⟩
    · have first : (device.hear change).done? = some heard := congrArg Outcome.done? done
      rw [Device.hearAll?, List.foldlM_cons, first]
      exact rest
    · rwa [List.map_cons, List.reverse_cons, List.append_assoc]

theorem Kept.interruptEach? (kept : device.Kept target history) (channels : List Nat)
    (fired : ∀ channel ∈ channels, channel ∈ device.running) :
    ∃ next, Device.interruptEach? channels device 1 = some next ∧
      next.Kept target ((channels.map Action.interrupt).reverse ++ history) := by
  induction channels generalizing device history with
  | nil => exact ⟨device, rfl, kept⟩
  | cons channel channels ih =>
    rw [List.forall_mem_cons] at fired
    obtain ⟨flipped, done, keptFlipped⟩ := kept.interrupt size fired.1
    obtain ⟨next, rest, keptNext⟩ := ih keptFlipped (by
      rw [running_of_interrupt done]
      exact fired.2)
    refine ⟨next, ?_, ?_⟩
    · have first : (device.interrupt channel).done? = some flipped := congrArg Outcome.done? done
      rw [Device.interruptEach?, List.foldlM_cons, first]
      exact rest
    · rwa [List.map_cons, List.reverse_cons, List.append_assoc]

/-- Ticks that tell what is scheduled are played without a fault, and every channel whose part has ended
by then is settled. -/
theorem Kept.playTicks? {parts : Nat → Option (List Event)}
    (lasting : ∀ channel events, parts channel = some events → ∀ event ∈ events, 0 < event.ticks)
    {interrupts : Nat → Device → List Nat}
    (fired : ∀ wait device, ∀ channel ∈ interrupts wait device, channel ∈ device.running)
    (ticks : List (List Change)) (elapsed : Nat) (kept : device.Kept target history)
    (settled : ∀ channel < target.channels.length, partTicks (parts channel) ≤ elapsed →
      Action.Settled channel history)
    (told : ∀ tick changes, ticks[tick]? = some changes →
      Playback.Told parts target.channels.length (elapsed + tick) changes) :
    ∃ duties last recent,
      Device.playTicks? (fun wait device => Device.interruptEach? (interrupts wait device) device 1)
        elapsed device ticks = some (duties, last) ∧
      last.Kept target (recent ++ history) ∧
      ∀ channel < target.channels.length, partTicks (parts channel) ≤ elapsed + ticks.length →
        Action.Settled channel (recent ++ history) := by
  induction ticks generalizing device history elapsed with
  | nil => exact ⟨[], device, [], rfl, kept, settled⟩
  | cons changes ticks ih =>
    have now := told 0 changes rfl
    obtain ⟨heard, hears, keptHeard⟩ := kept.hearAll? size changes
      fun change member => ((now.scheduled change).mp member).1
    obtain ⟨flipped, waits, keptFlipped⟩ :=
      keptHeard.interruptEach? size (interrupts elapsed heard) (fired elapsed heard)
    have settledFlipped : ∀ channel < target.channels.length,
        partTicks (parts channel) ≤ elapsed + 1 → Action.Settled channel
          (((interrupts elapsed heard).map Action.interrupt).reverse ++
            ((changes.map Action.change).reverse ++ history)) := by
      intro channel inside ends
      refine Action.settled_append (by simp) (.inl ?_)
      exact Action.settled_heard lasting now inside ends (settled channel inside)
    have toldLater : ∀ tick later, ticks[tick]? = some later →
        Playback.Told parts target.channels.length (elapsed + 1 + tick) later := by
      intro tick later here
      rw [Nat.add_right_comm]
      exact told (tick + 1) later here
    obtain ⟨duties, last, recent, plays, keptLast, settledLast⟩ :=
      ih (elapsed + 1) keptFlipped settledFlipped toldLater
    refine ⟨flipped.mixer.duty :: duties, last, recent ++
      (((interrupts elapsed heard).map Action.interrupt).reverse ++
        (changes.map Action.change).reverse), ?_, ?_, ?_⟩
    · rw [Device.playTicks?, hears]
      simp only [Option.bind_eq_bind, Option.bind_some, waits, plays, Option.pure_def]
    · simpa only [List.append_assoc] using keptLast
    · intro channel inside ends
      have later := settledLast channel inside (by rw [List.length_cons] at ends; omega)
      simpa only [List.append_assoc] using later

end Steps

/-- A device of which every channel is settled is silent. -/
theorem Kept.silent_of_settled (kept : device.Kept target history)
    (settled : ∀ channel < target.channels.length, Action.Settled channel history) :
    (∀ oscillator ∈ device.oscillators, oscillator.timer.running = false) ∧
      device.mixer.level = (target.volume.toNat % 4) <<< target.channels.length ∧
      device.mixer.channelBits = 0 := by
  have stopped : ∀ (channel : Nat) (oscillator : Oscillator),
      device.oscillators[channel]? = some oscillator → oscillator.timer.running = false := by
    intro channel oscillator here
    cases runs : oscillator.timer.running with
    | false => rfl
    | true =>
      obtain ⟨pitch, period, latest, -⟩ := kept.latest_of_running here runs
      exact (settled channel (kept.made.lt_length here) _ latest).elim
  have level : device.mixer.level = (target.volume.toNat % 4) <<< target.channels.length := by
    rw [← kept.selected]
    apply eq_shiftLeft_of_clear
    intro channel inside
    have found := List.getElem?_eq_getElem (kept.made.length_eq ▸ inside)
    exact kept.silent channel _ found (stopped channel _ found)
  refine ⟨?_, level, ?_⟩
  · intro oscillator member
    obtain ⟨channel, here⟩ := List.getElem?_of_mem member
    exact stopped channel oscillator here
  · rw [Mixer.channelBits, level, kept.made.count, Nat.shiftLeft_eq, Nat.one_shiftLeft,
      Nat.mul_mod_left]

end Device

namespace Device

variable {target : Target} {device : Device}

/-- A loaded song is played through on a device with any interrupts of running timers during the waits. The
listener is set up and reset, then told the changes of every tick before the wait for it, for as many ticks
as the longest track takes and one more. Nothing of it fails, and it leaves the device silent. -/
theorem performance_ends_in_silence {bytes : List UInt8} {song : Song}
    (loaded : Song.ofBytes bytes = .ok song)
    (size : target.levels.size = 4 <<< target.channels.length) (made : device.MadeFor target)
    (interrupts : Nat → Device → List Nat)
    (fired : ∀ wait device, ∀ channel ∈ interrupts wait device, channel ∈ device.running) :
    ∃ playback tempo ticks silent duties last duty,
      Playback.start song target.channels.length = some playback ∧ song.tempo? = some tempo ∧
      playback.perform false none =
        ⟨.setup :: .reset :: ticks.flatMap (fun changes => changes.map .change ++ [.wait tempo]),
          .finished⟩ ∧
      ticks.length = song.passTicks target.channels.length ∧
      (∀ tick changes, ticks[tick]? = some changes →
        Playback.Told song.part? target.channels.length tick changes) ∧
      device.reset = .done silent ∧
      playTicks? (fun wait device => interruptEach? (interrupts wait device) device 1) 0 silent ticks =
        some (duties, last) ∧
      (∀ oscillator ∈ last.oscillators, oscillator.timer.running = false) ∧
      last.mixer.channelBits = 0 ∧ last.mixer.duty = some duty ∧
      target.levels[(target.volume.toNat % 4) <<< target.channels.length]? = some duty := by
  obtain ⟨playback, started, tempo, ending, length, told⟩ :=
    Playback.wholePass_of_loaded loaded target.channels.length
  obtain ⟨silent, resets, keptSilent⟩ := made.reset size []
  have settled : ∀ channel, Action.Settled channel [.reset] := by
    intro channel note
    rw [Action.latest?_of_concerns rfl]
    rintro ⟨⟩
  obtain ⟨duties, last, recent, plays, kept, settledLast⟩ :=
    keptSilent.playTicks? size (fun _ _ part => Song.part?_lasting part) fired
      playback.wholePass.ticks 0 (fun channel _ _ => settled channel)
      (by simpa only [Nat.zero_add] using told)
  obtain ⟨stopped, level, clear⟩ := kept.silent_of_settled (by
    intro channel inside
    refine settledLast channel inside ?_
    rw [Nat.zero_add, length]
    exact le_foldl_max (List.mem_map_of_mem (List.mem_range.mpr inside)))
  have shown : last.mixer.duty = target.levels[last.mixer.level]? := by
    rw [kept.written, List.all_append, if_neg (by simp [Target.starts])]
  have inside := kept.level_lt size
  rw [Array.getElem?_eq_getElem inside] at shown
  refine ⟨playback, _, playback.wholePass.ticks, silent, duties, last, _, started, tempo, ?_, length,
    told, resets, plays, stopped, clear, shown, ?_⟩
  · simp only [Playback.perform, Pass.cues, ending]
  · rw [← level, Array.getElem?_eq_getElem inside]

/-- Two tracks on a target of three channels, where every running timer interrupts twice a wait. -/
theorem twoTracks_end_in_silence :
    ∃ ticks silent duties last, ticks.length = 5 ∧ Target.atmega3208.device.reset = .done silent ∧
      playTicks? (fun _ device => interruptEach? (device.running ++ device.running) device 1) 0 silent
        ticks = some (duties, last) ∧
      last.mixer.channelBits = 0 ∧ last.mixer.duty = some 0 := by
  have fresh := fresh_device Target.atmega3208
  have made : Target.atmega3208.device.MadeFor Target.atmega3208 := fresh.kept.made
  obtain ⟨-, -, ticks, silent, duties, last, duty, -, -, -, length, -, resets, plays, -, clear, shown,
    found⟩ := performance_ends_in_silence Song.ofBytes_twoTracks rfl made
      (fun _ device => device.running ++ device.running) (by simp)
  have ticksOf : (⟨Song.twoTracks⟩ : Song).passTicks 3 = 5 := by cbv
  refine ⟨ticks, silent, duties, last, length.trans ticksOf, resets, plays, clear, ?_⟩
  rw [shown, ← found]
  rfl

end Device

end Buzzer
