import Buzzer.Device.Mixer

/-!
The levels that a mixer goes through. A channel can only change its own bit of the level, so the volume
above the bits of the channels stays what it is, and a table with an entry for every level of that volume
has an entry for every level that the mixer takes over.
-/
namespace Buzzer

/-! The bits of a level. -/

theorem testBit_flip (level bit index : Nat) :
    (level ^^^ 1 <<< bit).testBit index = (level.testBit index ^^ decide (bit = index)) := by
  rw [Nat.testBit_xor, Nat.one_shiftLeft, Nat.testBit_two_pow]

theorem testBit_clearBit (level bit index : Nat) :
    (clearBit level bit).testBit index = (level.testBit index && decide (bit ≠ index)) := by
  unfold clearBit
  by_cases same : bit = index
  · subst same
    cases set : level.testBit bit with
    | false => rw [if_neg Bool.false_ne_true, set, Bool.false_and]
    | true =>
      rw [if_pos rfl, testBit_flip, set, decide_eq_true rfl, decide_eq_false (not_not_intro rfl)]
      rfl
  · have kept : (level ^^^ 1 <<< bit).testBit index = level.testBit index := by
      rw [testBit_flip, decide_eq_false same, Bool.xor_false]
    rw [decide_eq_true same, Bool.and_true]
    split
    · exact kept
    · rfl

theorem flip_shiftRight {channel count : Nat} (level : Nat) (inside : channel < count) :
    (level ^^^ 1 <<< channel) >>> count = level >>> count := by
  apply Nat.eq_of_testBit_eq
  intro bit
  have other : channel ≠ count + bit := by omega
  rw [Nat.testBit_shiftRight, Nat.testBit_shiftRight, testBit_flip, decide_eq_false other,
    Bool.xor_false]

theorem clearBit_shiftRight {channel count : Nat} (level : Nat) (inside : channel < count) :
    clearBit level channel >>> count = level >>> count := by
  unfold clearBit
  split
  · exact flip_shiftRight level inside
  · rfl

theorem testBit_shiftLeft_of_lt {channel count : Nat} (volume : Nat) (inside : channel < count) :
    (volume <<< count).testBit channel = false := by
  rw [Nat.testBit_shiftLeft, decide_eq_false (Nat.not_le_of_lt inside), Bool.false_and]

theorem shiftRight_lt_iff {level count bound : Nat} : level >>> count < bound ↔ level < bound <<< count := by
  rw [Nat.shiftRight_eq_div_pow, Nat.div_lt_iff_lt_mul (Nat.two_pow_pos count), Nat.shiftLeft_eq]

/-- The volume and the bits of the channels make up the whole level. -/
theorem level_ext {first second count : Nat} (above : first >>> count = second >>> count)
    (below : ∀ channel < count, first.testBit channel = second.testBit channel) : first = second := by
  apply Nat.eq_of_testBit_eq
  intro bit
  by_cases low : bit < count
  · exact below bit low
  · have bits := congrArg (Nat.testBit · (bit - count)) above
    simp only [Nat.testBit_shiftRight, Nat.add_sub_cancel' (Nat.le_of_not_lt low)] at bits
    exact bits

/-- A level without the bits of its channels is its volume. -/
theorem eq_shiftLeft_of_clear {level count : Nat}
    (clear : ∀ channel < count, level.testBit channel = false) :
    level = (level >>> count) <<< count := by
  apply level_ext (Nat.shiftLeft_shiftRight _ _).symm
  intro channel inside
  rw [clear channel inside, testBit_shiftLeft_of_lt _ inside]

namespace Mixer

/-- Whether the table of a mixer has an entry for every level of its volume. -/
structure Tabled (mixer : Mixer) : Prop where
  volume : mixer.volume < 4
  size : mixer.levels.size = 4 <<< mixer.channels

variable {mixer : Mixer} {level : Nat}

/-- A level of the mixer's volume is taken over, and its duty cycle is written. -/
theorem store_of_volume (tabled : mixer.Tabled) (volume : level >>> mixer.channels = mixer.volume) :
    ∃ duty, mixer.levels[level]? = some duty ∧
      mixer.store level = some { mixer with level, duty := some duty } := by
  have inside : level < mixer.levels.size := by
    rw [tabled.size]
    apply shiftRight_lt_iff.mp
    rw [volume]
    exact tabled.volume
  have found : mixer.levels[level]? = some mixer.levels[level] := Array.getElem?_eq_getElem inside
  exact ⟨_, found, by rw [store, found, Option.map_some]⟩

end Mixer

end Buzzer
