import Buzzer.Performance
import Buzzer.Proofs.Playback.Ticks

/-!
A pass over a loaded song. It comes to its own end after the ticks of the longest track that is played and
one more, in which that track is found to have ended, and each of its ticks tells what is scheduled for it.
-/
namespace Buzzer

theorem foldl_max_sub (values : List Nat) (start amount : Nat) :
    (values.map (· - amount)).foldl max (start - amount) = values.foldl max start - amount := by
  induction values generalizing start with
  | nil => rfl
  | cons value values ih =>
    have both : max (start - amount) (value - amount) = max start value - amount := by omega
    rw [List.map_cons, List.foldl_cons, List.foldl_cons, both, ih]

theorem le_foldl_max {values : List Nat} {value : Nat} (member : value ∈ values) :
    value ≤ values.foldl max 0 := by
  rw [List.foldl_eq_foldr]
  exact List.le_max_of_le' 0 member (Nat.le_refl _)

theorem foldl_max_mem {values : List Nat} (some : values ≠ []) : values.foldl max 0 ∈ values := by
  obtain ⟨first, later, rfl⟩ := List.exists_cons_of_ne_nil some
  rw [List.foldl_cons, Nat.zero_max]
  exact List.max?_mem List.max?_cons'

theorem foldl_max_eq_zero {values : List Nat} (zero : ∀ value ∈ values, value = 0) :
    values.foldl max 0 = 0 := by
  rw [List.foldl_eq_foldr]
  exact Nat.le_zero.mp (List.max_le_of_forall_le values 0 fun value member => (zero value member).le)

namespace Event

theorem total_drop (events : List Event) (begun : Nat) :
    onset events begun + total (events.drop begun) = total events := by
  rw [onset, ← total_append, List.take_append_drop]

end Event

/-- The ticks that a track takes: those of its events and one more for its end. -/
def partTicks : Option (List Event) → Nat
  | none => 0
  | some events => Event.total events + 1

theorem Song.part?_lasting {song : Song} {channel : Nat} {events : List Event}
    (part : song.part? channel = some events) : ∀ event ∈ events, 0 < event.ticks := by
  obtain ⟨byte, -, rfl⟩ := Option.map_eq_some_iff.mp part
  unfold reading Block.readingOf
  split
  · simp
  next cursor _ => exact cursor.ticks_pos_of_reading

/-- The ticks of a pass over a number of channels: those of the track that takes the most, or none if
there is no track. -/
def Song.passTicks (song : Song) (count : Nat) : Nat :=
  ((List.range count).map fun channel => partTicks (song.part? channel)).foldl max 0

theorem Cursor.ticksLeft_of_due {events : List Event} {elapsed : Nat} {cursor : Cursor}
    (due : cursor.Due events elapsed) : cursor.ticksLeft = Event.total events + 1 - elapsed := by
  cases due with
  | done ended past =>
    rw [Cursor.ticksLeft, ended, if_pos rfl]
    omega
  | playing begun within playing reading time current =>
    have rest := Event.total_drop events begun
    rw [Cursor.ticksLeft, playing, if_neg Bool.false_ne_true, reading]
    simp only
    omega

namespace Playback

theorem ticksLeft_of_inTime {part : Option (List Event)} {elapsed : Nat} {cursor : Cursor}
    (seated : InTime part elapsed cursor) : cursor.ticksLeft = partTicks part - elapsed := by
  cases part with
  | none =>
    have ended : cursor.isEnded = true := seated
    rw [Cursor.ticksLeft, ended, if_pos rfl, partTicks, Nat.zero_sub]
  | some events => exact Cursor.ticksLeft_of_due seated.2

/-- What a listener has to be told at a tick, in the order of the channels. -/
structure Told (parts : Nat → Option (List Event)) (count tick : Nat) (changes : List Change) : Prop where
  ordered : (changes.map Change.channel).Pairwise (· < ·)
  scheduled : ∀ change, change ∈ changes ↔ change.channel < count ∧ IsScheduled parts tick change

theorem isPlaying_iff_ticksLeft (playback : Playback) :
    playback.isPlaying = true ↔ 0 < playback.ticksLeft := by
  unfold isPlaying ticksLeft
  rw [List.any_eq_true]
  constructor
  · rintro ⟨cursor, member, plays⟩
    have playing : cursor.isEnded = false := by simpa using plays
    have some : 0 < cursor.ticksLeft := by
      rw [Cursor.ticksLeft, playing, if_neg Bool.false_ne_true]
      exact Nat.succ_pos _
    exact Nat.lt_of_lt_of_le some (le_foldl_max (List.mem_map_of_mem member))
  · intro positive
    by_contra silent
    refine Nat.ne_of_gt positive (foldl_max_eq_zero ?_)
    intro value member
    obtain ⟨cursor, among, rfl⟩ := List.mem_map.mp member
    have ended : cursor.isEnded = true := by
      by_contra plays
      exact silent ⟨cursor, among, by simpa using plays⟩
    rw [Cursor.ticksLeft, ended, if_pos rfl]

section Pass

variable {parts : Nat → Option (List Event)} {count elapsed : Nat} {playback : Playback}

theorem ticksLeft_of_onTime (onTime : OnTime parts count elapsed playback) :
    playback.ticksLeft =
      ((List.range count).map fun channel => partTicks (parts channel)).foldl max 0 - elapsed := by
  have same : playback.tracks.map Cursor.ticksLeft =
      ((List.range count).map fun channel => partTicks (parts channel)).map (· - elapsed) := by
    apply List.ext_getElem
    · simp [onTime.length]
    · intro channel inside _
      rw [List.length_map] at inside
      have seated := onTime.inTime channel _ (List.getElem?_eq_getElem inside)
      simpa using ticksLeft_of_inTime seated
  rw [ticksLeft, same, ← foldl_max_sub, Nat.zero_sub]

/-- A tick that is on time tells what is scheduled for it and leaves one tick less, if any were left. -/
theorem tick_ticksLeft (onTime : OnTime parts count elapsed playback) :
    ∃ tick, playback.tick = some tick ∧ OnTime parts count (elapsed + 1) tick.next ∧
      (tick.played = true ↔ 0 < playback.ticksLeft) ∧
      tick.next.ticksLeft = playback.ticksLeft - 1 ∧ Told parts count elapsed tick.changes := by
  obtain ⟨tick, step, later, plays, ordered, told⟩ := tick_onTime onTime
  refine ⟨tick, step, later, ?_, ?_, ordered, told⟩
  · rw [plays]
    exact isPlaying_iff_ticksLeft playback
  · rw [ticksLeft_of_onTime later, ticksLeft_of_onTime onTime, Nat.sub_sub]

/-- A pass that is on time ends of itself after the ticks that are left, each of which tells what is
scheduled for it. -/
theorem pass_onTime (onTime : OnTime parts count elapsed playback) {limit : Nat}
    (enough : playback.ticksLeft < limit) :
    (playback.pass limit).ending = .finished ∧
      (playback.pass limit).ticks.length = playback.ticksLeft ∧
      ∀ tick changes, (playback.pass limit).ticks[tick]? = some changes →
        Told parts count (elapsed + tick) changes := by
  induction limit generalizing elapsed playback with
  | zero => omega
  | succ limit ih =>
    obtain ⟨⟨next, now, played⟩, step, later, plays, left, told⟩ := tick_ticksLeft onTime
    simp only at plays left told
    cases played with
    | false =>
      have none : playback.ticksLeft = 0 := by simpa using plays
      simp [pass, step, none]
    | true =>
      have positive : 0 < playback.ticksLeft := plays.mp rfl
      obtain ⟨ending, length, others⟩ := ih later (by simp only; omega)
      simp only [pass, step, if_true]
      refine ⟨ending, ?_, ?_⟩
      · rw [List.length_cons, length]
        simp only
        omega
      · intro tick changes here
        cases tick with
        | zero =>
          cases here
          exact told
        | succ tick =>
          rw [Nat.add_comm tick 1, ← Nat.add_assoc]
          exact others tick changes here

end Pass

theorem tempo?_of_start {song : Song} {count : Nat} {playback : Playback}
    (started : start song count = some playback) : song.tempo? = some playback.tempo := by
  unfold start at started
  cases seats : seat 0 song.blocks count with
  | none => simp [seats] at started
  | some tracks =>
    cases tempo : song.tempo? with
    | none => simp [seats, tempo] at started
    | some value =>
      simp only [seats, tempo, Option.bind_eq_bind, Option.bind_some, Option.pure_def,
        Option.some.injEq] at started
      rw [← started]

/-- The whole of a pass over a loaded song. -/
theorem wholePass_of_loaded {bytes : List UInt8} {song : Song} (loaded : Song.ofBytes bytes = .ok song)
    (count : Nat) :
    ∃ playback, start song count = some playback ∧ song.tempo? = some playback.tempo ∧
      playback.wholePass.ending = .finished ∧
      playback.wholePass.ticks.length = song.passTicks count ∧
      ∀ tick changes, playback.wholePass.ticks[tick]? = some changes →
        Told song.part? count tick changes := by
  obtain ⟨playback, started, onTime⟩ := start_onTime loaded count
  obtain ⟨ending, length, told⟩ := pass_onTime onTime (Nat.lt_succ_self playback.ticksLeft)
  refine ⟨playback, started, ?_, ending, ?_, ?_⟩
  · exact tempo?_of_start started
  · rw [wholePass, length, ticksLeft_of_onTime onTime]
    rfl
  · intro tick changes here
    have scheduled := told tick changes here
    rwa [Nat.zero_add] at scheduled

end Playback

/-- Whether a pass tells a listener of a change at a tick. -/
def Pass.Tells (pass : Pass) (tick : Nat) (change : Change) : Prop :=
  ∃ changes, pass.ticks[tick]? = some changes ∧ change ∈ changes

namespace Playback

theorem lt_partTicks_of_scheduled {parts : Nat → Option (List Event)}
    (lasting : ∀ channel events, parts channel = some events → ∀ event ∈ events, 0 < event.ticks)
    {tick : Nat} {change : Change} (scheduled : IsScheduled parts tick change) :
    tick < partTicks (parts change.channel) := by
  obtain ⟨events, part, now⟩ := scheduled
  rw [part, partTicks, Nat.lt_succ_iff]
  cases change with
  | note channel note =>
    obtain ⟨index, event, here, -, rfl⟩ := now
    exact Nat.le_of_lt (Event.onset_lt_total (lasting _ events part) (List.getElem?_eq_some_iff.mp here).1)
  | trackEnd channel => exact Nat.le_of_eq now

/-- A whole pass over a loaded song tells of everything that is scheduled for its channels. -/
theorem tells_wholePass {bytes : List UInt8} {song : Song} (loaded : Song.ofBytes bytes = .ok song)
    (count : Nat) :
    ∃ playback, start song count = some playback ∧ playback.wholePass.ending = .finished ∧
      ∀ tick change, playback.wholePass.Tells tick change ↔
        change.channel < count ∧ IsScheduled song.part? tick change := by
  obtain ⟨playback, started, -, ending, length, told⟩ := wholePass_of_loaded loaded count
  refine ⟨playback, started, ending, ?_⟩
  intro tick change
  constructor
  · rintro ⟨changes, here, member⟩
    exact ((told tick changes here).scheduled change).mp member
  · rintro ⟨inside, scheduled⟩
    have within : tick < playback.wholePass.ticks.length := by
      rw [length]
      refine Nat.lt_of_lt_of_le (lt_partTicks_of_scheduled (fun _ _ => Song.part?_lasting) scheduled) ?_
      exact le_foldl_max (List.mem_map_of_mem (List.mem_range.mpr inside))
    have here := List.getElem?_eq_getElem within
    exact ⟨_, here, ((told tick _ here).scheduled change).mpr ⟨inside, scheduled⟩⟩

end Playback

end Buzzer
