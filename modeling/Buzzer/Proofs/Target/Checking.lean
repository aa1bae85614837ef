import Buzzer.Proofs.Device.Runs
import Buzzer.Proofs.Except
import Buzzer.Proofs.Playback.Passes

/-!
What checking a song for a target is about. The check goes over the events of every channel, and it passes
exactly if nothing that a listener is told while the song is played leaves a channel silent. Otherwise it
tells of the first thing that does, on the lowest channel that cannot be played.
-/
namespace Buzzer

namespace Target

/-- Whether a channel of a target sounds when it plays a pitch. -/
def Sounds (target : Target) (channel pitch : Nat) : Prop :=
  ∃ oscillator, target.device.oscillators[channel]? = some oscillator ∧
    oscillator.sounds (.tone pitch) = true

theorem sounds_iff {target : Target} {channel : Nat} {settings : Channel}
    (here : target.channels[channel]? = some settings) (pitch : Nat) :
    target.Sounds channel pitch ↔ (settings.period? pitch).isSome = true := by
  have found : target.device.oscillators[channel]? = some { channel := settings } := by
    rw [device, List.getElem?_map, here, Option.map_some]
  simp only [Sounds, found, Option.some.injEq, exists_eq_left']
  rfl

/-- Whether a target has a channel on which every tone of a pass sounds. -/
structure Carries (target : Target) (pass : Pass) (channel : Nat) : Prop where
  inside : channel < target.channels.length
  sounds : ∀ tick pitch, pass.Tells tick (.note channel (.tone pitch)) → target.Sounds channel pitch

/-- The reason for which a channel of a pass is not played on a target: there is no such channel, or it is
left silent by a tone, of which this is the first. -/
inductive Refuses (target : Target) (pass : Pass) (channel : UInt8) : SongError → Prop where
  | missing (past : target.channels.length ≤ channel.toNat) :
      Refuses target pass channel (.channelOutOfRange channel)
  | silent {tick pitch} (inside : channel.toNat < target.channels.length)
      (told : pass.Tells tick (.note channel.toNat (.tone pitch)))
      (silent : ¬target.Sounds channel.toNat pitch)
      (first : ∀ earlier < tick, ∀ other, pass.Tells earlier (.note channel.toNat (.tone other)) →
        target.Sounds channel.toNat other) :
      Refuses target pass channel (.noteOutOfRange channel pitch)

theorem Refuses.not_carries {target : Target} {pass : Pass} {channel : UInt8} {error : SongError}
    (refuses : target.Refuses pass channel error) : ¬target.Carries pass channel.toNat := by
  intro carries
  cases refuses with
  | missing past => exact Nat.not_lt_of_le past carries.inside
  | silent inside told silent first => exact silent (carries.sounds _ _ told)

section Channels

variable {bytes : List UInt8} {song : Song} {target : Target} {pass : Pass}

/-- The first tone of a part that a channel cannot play is the first that leaves it silent. -/
theorem find?_silent {events : List Event} {settings : Channel} {pitch : Nat}
    (found : (events.filterMap (·.note.pitch?)).find? (fun pitch => (settings.period? pitch).isNone) =
      some pitch) :
    ∃ (index : Nat) (event : Event), events[index]? = some event ∧ event.note = .tone pitch ∧
      (settings.period? pitch).isNone = true ∧
      ∀ earlier < index, ∀ (other : Event), events[earlier]? = some other →
        ∀ pitch, other.note = .tone pitch → (settings.period? pitch).isSome = true := by
  have unplayable := List.find?_some found
  rw [List.find?_filterMap, Option.bind_eq_some_iff] at found
  obtain ⟨⟨note, ticks⟩, first, same⟩ := found
  obtain ⟨-, index, within, here, earlier⟩ := List.find?_eq_some_iff_getElem.mp first
  refine ⟨index, ⟨note, ticks⟩, by rw [List.getElem?_eq_getElem within, here], ?_, unplayable, ?_⟩
  · cases note with
    | tone other =>
      cases same
      rfl
    | rest => cases same
  · intro before less other there pitch sounding
    obtain ⟨inside, same⟩ := List.getElem?_eq_some_iff.mp there
    have plays := earlier before less
    rw [same] at plays
    simpa [sounding, Note.pitch?, Option.isSome_iff_ne_none] using plays

/-- The check of a channel finds whether it can be played, and otherwise why not. -/
theorem checkChannel_of_loaded (loaded : Song.ofBytes bytes = .ok song)
    (tells : ∀ tick change, pass.Tells tick change ↔
      change.channel < target.channels.length ∧ Playback.IsScheduled song.part? tick change)
    {channel : UInt8} (present : channel ∈ song.channels) :
    (target.checkChannel song channel = .ok () ∧ target.Carries pass channel.toNat) ∨
      ∃ error, target.checkChannel song channel = .error (.refused error) ∧
        target.Refuses pass channel error := by
  have part := Song.part?_of_mem present
  unfold checkChannel
  cases here : target.channels[channel.toNat]? with
  | none => exact .inr ⟨_, rfl, .missing (List.getElem?_eq_none_iff.mp here)⟩
  | some settings =>
    have inside : channel.toNat < target.channels.length := (List.getElem?_eq_some_iff.mp here).1
    have sounds := sounds_iff here
    -- a tone that is told of is an event of the part, and the other way round
    have toldOf : ∀ tick pitch, pass.Tells tick (.note channel.toNat (.tone pitch)) →
        ∃ index event, (song.reading channel).events[index]? = some event ∧
          event.note = .tone pitch ∧ tick = Event.onset (song.reading channel).events index := by
      intro tick pitch told
      obtain ⟨-, events, found, scheduled⟩ := (tells _ _).mp told
      rw [Change.channel, part, Option.some.injEq] at found
      rw [found]
      exact scheduled
    cases found : ((song.reading channel).events.filterMap (·.note.pitch?)).find?
        fun pitch => (settings.period? pitch).isNone with
    | none =>
      left
      simp only [found, Song.reading_complete loaded channel, if_true, true_and]
      refine ⟨inside, ?_⟩
      intro tick pitch told
      obtain ⟨index, event, among, note, -⟩ := toldOf tick pitch told
      have member : pitch ∈ (song.reading channel).events.filterMap (·.note.pitch?) :=
        List.mem_filterMap.mpr ⟨event, List.mem_of_getElem? among, by rw [note, Note.pitch?]⟩
      have plays := List.find?_eq_none.mp found pitch member
      rw [sounds]
      simpa [Option.isSome_iff_ne_none] using plays
    | some pitch =>
      right
      simp only [found]
      obtain ⟨index, event, among, note, unplayable, earlier⟩ := find?_silent found
      refine ⟨_, rfl, .silent inside ((tells _ _).mpr ⟨inside, _, part, index, event, among, note, rfl⟩)
        ?_ ?_⟩
      · rw [sounds]
        simpa using unplayable
      · intro before less other told
        obtain ⟨place, event, there, same, now⟩ := toldOf before other told
        have ordered : place < index := by
          by_contra later
          have after := Event.onset_mono (song.reading channel).events (Nat.le_of_not_lt later)
          omega
        rw [sounds]
        exact earlier place ordered event there other same

end Channels

/-- A loaded song passes the check of a target exactly if the target has all its channels and every tone that
a listener is told of over a whole pass sounds. Otherwise the check tells why the lowest channel that fails is
not played. -/
theorem check_follows_playback {bytes : List UInt8} {song : Song} (loaded : Song.ofBytes bytes = .ok song)
    (target : Target) :
    ∃ playback, Playback.start song target.channels.length = some playback ∧
      playback.wholePass.ending = .finished ∧
      (target.check song = .ok () ↔
        (∀ channel ∈ song.channels, channel.toNat < target.channels.length) ∧
          ∀ tick channel pitch, playback.wholePass.Tells tick (.note channel (.tone pitch)) →
            target.Sounds channel pitch) ∧
      ∀ failure, target.check song = .error failure →
        ∃ channel ∈ song.channels, ∃ error, failure = .refused error ∧
          target.Refuses playback.wholePass channel error ∧
          ∀ lower ∈ song.channels, lower < channel →
            target.Carries playback.wholePass lower.toNat := by
  obtain ⟨playback, started, ending, tells⟩ :=
    Playback.tells_wholePass loaded target.channels.length
  obtain ⟨-, -, ordered, -⟩ := Song.blocks_of_loaded loaded
  have accepted : ∀ channel ∈ song.channels, target.checkChannel song channel = .ok () ↔
      target.Carries playback.wholePass channel.toNat := by
    intro channel present
    rcases checkChannel_of_loaded loaded tells present with ⟨ok, carries⟩ | ⟨error, failed, refuses⟩
    · exact iff_of_true ok carries
    · refine iff_of_false ?_ refuses.not_carries
      rw [failed]
      exact nofun
  refine ⟨playback, started, ending, ?_, ?_⟩
  · rw [check, forM_eq_ok_iff]
    constructor
    · intro all
      refine ⟨fun channel present => ((accepted channel present).mp (all channel present)).inside, ?_⟩
      intro tick channel pitch told
      obtain ⟨-, events, part, -⟩ := (tells _ _).mp told
      obtain ⟨byte, present, same, -⟩ := Song.mem_of_part? part
      have carries := (accepted byte present).mp (all byte present)
      rw [same] at carries
      exact carries.sounds tick pitch told
    · rintro ⟨inside, sounds⟩ channel present
      exact (accepted channel present).mpr ⟨inside channel present, fun tick => sounds tick _⟩
  · intro failure failed
    obtain ⟨before, channel, after, split, passed, refused⟩ := forM_eq_error failed
    have present : channel ∈ song.channels := by simp [split]
    rcases checkChannel_of_loaded loaded tells present with ⟨ok, -⟩ | ⟨error, found, refuses⟩
    · rw [ok] at refused
      cases refused
    · rw [found, Except.error.injEq] at refused
      refine ⟨channel, present, error, refused.symm, refuses, ?_⟩
      intro lower among below
      -- the channels are in their order, so a lower one has been checked before
      have earlier : lower ∈ before := by
        have increasing : (before ++ channel :: after).Pairwise (· < ·) := split ▸ ordered
        rw [split, List.mem_append, List.mem_cons] at among
        rcases among with early | rfl | late
        · exact early
        · exact (UInt8.lt_irrefl _ below).elim
        · have above := (List.pairwise_cons.mp (List.pairwise_append.mp increasing).2.1).1 lower late
          exact (UInt8.lt_irrefl _ (UInt8.lt_trans above below)).elim
      exact (accepted lower among).mp (passed lower earlier)

/-- The first track of two has a tone that its channel does not have a period for. -/
theorem pair_refuses_twoTracks :
    ∃ playback, Playback.start ⟨Song.twoTracks⟩ 2 = some playback ∧
      Device.pair.check ⟨Song.twoTracks⟩ = .error (.refused (.noteOutOfRange 1 5)) ∧
      Device.pair.Refuses playback.wholePass 1 (.noteOutOfRange 1 5) := by
  have failed : Device.pair.check ⟨Song.twoTracks⟩ = .error (.refused (.noteOutOfRange 1 5)) := by
    cbv
  obtain ⟨playback, started, -, -, fails⟩ := check_follows_playback Song.ofBytes_twoTracks Device.pair
  obtain ⟨channel, -, error, same, refuses, -⟩ := fails _ failed
  cases same
  have first : channel = 1 := by
    cases refuses
    rfl
  subst first
  exact ⟨playback, started, failed, refuses⟩

end Target

end Buzzer
