import Buzzer.Midi.Arranger
import Buzzer.Target.Shipped

/-!
The range of a channel and its periods. Both say which pitches the channel can play: notes are accepted for a
channel by its range, and its timer starts by its periods. They agree where the pitches of the channel end
within a byte. A range that ends elsewhere wraps around.
-/
namespace Buzzer

namespace Channel

/-- The pitch after the last one that the channel has a period for. -/
def past (channel : Channel) : Int := channel.periods.size - channel.offset

/-- Whether the periods can be counted in a signed word, and the pitches of the channel end within a byte. -/
structure EndsInByte (channel : Channel) : Prop where
  short : channel.periods.size < 0x8000
  begins : 0 ≤ channel.past
  ends : channel.past < 0x100

instance (channel : Channel) : Decidable channel.EndsInByte :=
  decidable_of_iff (channel.periods.size < 0x8000 ∧ 0 ≤ channel.past ∧ channel.past < 0x100)
    ⟨fun all => ⟨all.1, all.2.1, all.2.2⟩, fun within => ⟨within.short, within.begins, within.ends⟩⟩

variable {channel : Channel}

/-- A place past the last signed word becomes one below zero, which has no period either. -/
theorem period?_isSome_iff (short : channel.periods.size < 0x8000) (least : -0x8000 ≤ channel.offset)
    (greatest : channel.offset < 0x8000) {pitch : Nat} (small : pitch < 0x8000) :
    (channel.period? pitch).isSome = true ↔
      0 ≤ (pitch : Int) + channel.offset ∧ (pitch : Int) < channel.past := by
  unfold period? past
  by_cases inside : 0 ≤ (pitch : Int) + channel.offset ∧ (pitch : Int) + channel.offset < 0x8000
  · have place : Int.bmod (pitch + channel.offset) 0x10000 = pitch + channel.offset :=
      Int.bmod_eq_of_le (by omega) (by omega)
    simp only [place, Int.not_lt.mpr inside.1, if_false, Option.isSome_iff_ne_none, ne_eq,
      Array.getElem?_eq_none_iff]
    omega
  · have below : Int.bmod (pitch + channel.offset) 0x10000 < 0 := by
      rw [Int.bmod_def]
      split <;> omega
    simp only [below, if_true, Option.isSome_none, Bool.false_eq_true, false_iff]
    omega

theorem first_range (channel : Channel) :
    (channel.range.first : Int) = max (-channel.offset) 0 % 0x100 := by
  unfold range
  simp only
  omega

/-- A byte does not notice that the number of periods is taken as a signed word. -/
theorem past_range (channel : Channel) : (channel.range.past : Int) = channel.past % 0x100 := by
  have word : Int.bmod channel.periods.size 0x10000 % 0x10000 = channel.periods.size % 0x10000 :=
    Int.bmod_emod
  unfold range past
  simp only
  omega

theorem contains_range_iff (channel : Channel) (pitch : Nat) :
    channel.range.contains pitch = true ↔
      max (-channel.offset) 0 % 0x100 ≤ pitch ∧ pitch < channel.past % 0x100 := by
  have first := channel.first_range
  have past := channel.past_range
  simp only [PitchRange.contains, Bool.and_eq_true, decide_eq_true_eq]
  omega

theorem EndsInByte.contains_iff (within : channel.EndsInByte) {pitch : Nat} (small : pitch < 0x100) :
    channel.range.contains pitch = true ↔ (channel.period? pitch).isSome = true := by
  obtain ⟨short, begins, ends⟩ := within
  have sizes : channel.past = channel.periods.size - channel.offset := rfl
  rw [contains_range_iff, period?_isSome_iff short (by omega) (by omega) (by omega)]
  omega

/-- A channel whose pitches end within a byte has a period for each pitch of its range. -/
theorem EndsInByte.isSome_of_contains (within : channel.EndsInByte) {pitch : Nat}
    (contains : channel.range.contains pitch = true) : (channel.period? pitch).isSome = true := by
  have small : pitch < 0x100 := by
    rw [contains_range_iff] at contains
    omega
  exact (within.contains_iff small).mp contains

/-- There is no other way to be right, if all numbers can be counted in signed words: a channel that plays some
byte, and whose range is right about the last one, ends within a byte. -/
theorem endsInByte_of_agrees (short : channel.periods.size < 0x8000) (least : -0x8000 ≤ channel.offset)
    (greatest : channel.offset < 0x8000) {pitch : Nat} (small : pitch < 0x100)
    (plays : (channel.period? pitch).isSome = true)
    (agrees : channel.range.contains 0xff = true ↔ (channel.period? 0xff).isSome = true) :
    channel.EndsInByte := by
  rw [period?_isSome_iff short least greatest (by omega)] at plays
  rw [contains_range_iff, period?_isSome_iff short least greatest (by decide)] at agrees
  refine ⟨short, ?_, ?_⟩ <;> omega

theorem running_play (timer : Timer) (pitch : Nat) :
    (Oscillator.play ⟨channel, timer⟩ (.tone pitch)).timer.running = (channel.period? pitch).isSome := by
  have period : Oscillator.period? ⟨channel, timer⟩ (.tone pitch) = channel.period? pitch := rfl
  unfold Oscillator.play Oscillator.calls
  rw [period]
  cases channel.period? pitch <;> rfl

theorem isPlayable_iff {pitch : Nat} (inSong : pitch < playablePitches) :
    Midi.isPlayable [channel] pitch = true ↔ channel.range.contains pitch = true := by
  simp [Midi.isPlayable, inSong]

/-- A channel whose pitches end within a byte has a period for exactly the pitches of its range. So a note is
accepted for the channel exactly if the timer starts for it. -/
theorem range_agrees_with_periods (within : channel.EndsInByte) {pitch : Nat}
    (inSong : pitch < playablePitches) :
    (channel.range.contains pitch = true ↔ (channel.period? pitch).isSome = true) ∧
      ∀ timer : Timer, Midi.isPlayable [channel] pitch = true ↔
        (Oscillator.play ⟨channel, timer⟩ (.tone pitch)).timer.running = true := by
  have small : pitch < 0x100 := Nat.lt_trans inSong (by decide)
  refine ⟨within.contains_iff small, ?_⟩
  intro timer
  rw [isPlayable_iff inSong, running_play, within.contains_iff small]

/-- The first channel of the smaller microcontroller, at its highest pitch. -/
theorem coarse_timer_agrees :
    ∃ channel ∈ Target.atmega328p.channels, channel.offset = -11 ∧
      (channel.range.contains 61 = true ↔ (channel.period? 61).isSome = true) := by
  have within : (⟨62500, Target.periods62kHz, -11⟩ : Channel).EndsInByte := by decide
  exact ⟨_, List.mem_cons_self, rfl, (range_agrees_with_periods within (by decide)).1⟩

/-- Four periods that all belong to pitches below the lowest. The range ends before the lowest pitch, and so
reaches almost up to the last byte, although the channel plays nothing. -/
theorem range_ends_below_zero :
    ¬∀ (channel : Channel) (pitch : Nat), channel.periods.size < 0x8000 →
      (∀ value ∈ [(pitch : Int) + channel.offset, -channel.offset, channel.past],
        -0x8000 ≤ value ∧ value < 0x8000) →
      pitch < playablePitches →
      (channel.range.contains pitch = true ↔ (channel.period? pitch).isSome = true) := by
  intro claim
  have both := claim ⟨62500, #[400, 300, 200, 100], 5⟩ 0 (by decide) (by decide) (by decide)
  revert both
  decide

end Channel

/-- The channels of the targets that are ready for use are such channels. -/
theorem Target.endsInByte_of_named? {name : String} {target : Target} (named : named? name = some target) :
    target.channels.length ≤ 255 ∧ ∀ channel ∈ target.channels, channel.EndsInByte := by
  unfold named? at named
  split at named
  · cases named
    decide
  · cases named
    decide
  · cases named

end Buzzer
