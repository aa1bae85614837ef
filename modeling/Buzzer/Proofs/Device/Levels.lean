import Mathlib.Data.Nat.Bitwise
import Buzzer.Proofs.Device.Mixing

/-!
What the check of a level table decides. It only compares levels that differ by one channel, but every set
of channels is reached from any set inside it by adding one channel after another, so an accepted table
never goes down when channels are added.
-/
namespace Buzzer

/-! Sets of channels, as the bits of a number. -/

/-- Whether every bit that is set in one number is set in another. -/
def Contained (fewer more : Nat) : Prop := ∀ bit, fewer.testBit bit = true → more.testBit bit = true

theorem lt_of_testBit_of_lt {level count bit : Nat} (small : level < 1 <<< count)
    (set : level.testBit bit = true) : bit < count := by
  rw [Nat.one_shiftLeft] at small
  have reached : 2 ^ bit ≤ level := Nat.ge_two_pow_of_testBit set
  exact (Nat.pow_lt_pow_iff_right (by decide)).mp (Nat.lt_of_le_of_lt reached small)

theorem contained_clearBit (level bit : Nat) : Contained (clearBit level bit) level := by
  intro other set
  rw [testBit_clearBit, Bool.and_eq_true] at set
  exact set.1

theorem clearBit_lt {level bit : Nat} (set : level.testBit bit = true) : clearBit level bit < level := by
  refine Nat.lt_of_testBit bit ?_ set ?_
  · rw [testBit_clearBit, decide_eq_false (not_not_intro rfl), Bool.and_false]
  · intro above higher
    rw [testBit_clearBit, decide_eq_true (Nat.ne_of_lt higher), Bool.and_true]

/-- A set that is not all of another is still inside it after one of its bits is cleared. -/
theorem Contained.exists_clearBit {fewer more : Nat} (inside : Contained fewer more)
    (different : fewer ≠ more) :
    ∃ bit, more.testBit bit = true ∧ Contained fewer (clearBit more bit) := by
  obtain ⟨bit, unlike⟩ := Nat.exists_testBit_ne_of_ne different
  have absent : fewer.testBit bit = false := by
    by_contra set
    rw [Bool.not_eq_false] at set
    exact unlike (set.trans (inside bit set).symm)
  have set : more.testBit bit = true := by
    by_contra clear
    rw [Bool.not_eq_true] at clear
    exact unlike (absent.trans clear.symm)
  refine ⟨bit, set, ?_⟩
  intro other kept
  have distinct : bit ≠ other := by
    rintro rfl
    rw [absent] at kept
    cases kept
  rw [testBit_clearBit, inside other kept, decide_eq_true distinct]
  rfl

theorem testBit_shiftLeft_or {count bit : Nat} (volume channels : Nat) (low : bit < count) :
    (volume <<< count ||| channels).testBit bit = channels.testBit bit := by
  rw [Nat.testBit_or, testBit_shiftLeft_of_lt volume low, Bool.false_or]

/-- Turning a channel off leaves the volume above it. -/
theorem clearBit_shiftLeft_or {count bit : Nat} (volume channels : Nat) (low : bit < count) :
    clearBit (volume <<< count ||| channels) bit = volume <<< count ||| clearBit channels bit := by
  apply Nat.eq_of_testBit_eq
  intro other
  rw [testBit_clearBit, Nat.testBit_or, Nat.testBit_or, testBit_clearBit]
  by_cases same : bit = other
  · subst same
    rw [testBit_shiftLeft_of_lt volume low, decide_eq_false (not_not_intro rfl), Bool.and_false,
      Bool.and_false, Bool.or_false]
  · rw [decide_eq_true same, Bool.and_true, Bool.and_true]

theorem shiftRight_of_lt {count channels : Nat} (inside : channels < 1 <<< count) :
    channels >>> count = 0 := by
  rw [Nat.one_shiftLeft] at inside
  exact Nat.shiftRight_eq_zero channels count inside

theorem mod_lt_shiftLeft (level count : Nat) : level % 1 <<< count < 1 <<< count := by
  rw [Nat.one_shiftLeft]
  exact Nat.mod_lt _ (Nat.two_pow_pos count)

/-- A level is its volume and its channels. -/
theorem shiftLeft_or_mod (level count : Nat) :
    (level >>> count) <<< count ||| level % 1 <<< count = level := by
  apply @level_ext _ _ count
  · rw [Nat.shiftRight_or_distrib, Nat.shiftLeft_shiftRight, shiftRight_of_lt (mod_lt_shiftLeft level count),
      Nat.or_zero]
  · intro channel low
    rw [testBit_shiftLeft_or _ _ low, Nat.one_shiftLeft, Nat.testBit_mod_two_pow, decide_eq_true low,
      Bool.true_and]

theorem shiftLeft_or_lt {volume count channels : Nat} (selected : volume < 4)
    (inside : channels < 1 <<< count) : volume <<< count ||| channels < 4 <<< count := by
  apply shiftRight_lt_iff.mp
  rwa [Nat.shiftRight_or_distrib, Nat.shiftLeft_shiftRight, shiftRight_of_lt inside, Nat.or_zero]

/-! Levels as words. -/

section Words

variable {index bit : Nat}

theorem toNat_mask (low : bit < 64) : ((1 : UInt64) <<< UInt64.ofNat bit).toNat = 2 ^ bit := by
  have place : bit % 2 ^ 64 % 64 = bit := by omega
  have fits : 2 ^ bit < 2 ^ 64 := Nat.pow_lt_pow_right (by decide) low
  rw [UInt64.toNat_shiftLeft, UInt64.toNat_ofNat', place, UInt64.toNat_one, Nat.one_shiftLeft,
    Nat.mod_eq_of_lt fits]

theorem and_mask_ne_zero_iff (fits : index < 2 ^ 64) (low : bit < 64) :
    UInt64.ofNat index &&& 1 <<< UInt64.ofNat bit ≠ 0 ↔ index.testBit bit = true := by
  rw [ne_eq, ← UInt64.toNat_inj, UInt64.toNat_and, toNat_mask low, UInt64.toNat_ofNat_of_lt' fits,
    UInt64.toNat_zero, Nat.and_two_pow]
  cases index.testBit bit with
  | false => simp
  | true => simp

theorem toNat_and_not_mask (fits : index < 2 ^ 64) (low : bit < 64) :
    (UInt64.ofNat index &&& ~~~(1 <<< UInt64.ofNat bit)).toNat = clearBit index bit := by
  have below : 2 ^ bit < 2 ^ 64 := Nat.pow_lt_pow_right (by decide) low
  have others : UInt64.size - 1 - 2 ^ bit = 2 ^ 64 - (2 ^ bit + 1) := by
    rw [Nat.sub_sub, Nat.add_comm 1]
    rfl
  apply Nat.eq_of_testBit_eq
  intro other
  rw [UInt64.toNat_and, UInt64.toNat_not, toNat_mask low, UInt64.toNat_ofNat_of_lt' fits, others,
    Nat.testBit_and, Nat.testBit_two_pow_sub_succ below, Nat.testBit_two_pow, testBit_clearBit]
  by_cases inside : other < 64
  · rw [decide_eq_true inside, Bool.true_and, decide_not]
  · have beyond : 2 ^ 64 ≤ 2 ^ other := Nat.pow_le_pow_right (by decide) (Nat.le_of_not_lt inside)
    have clear : index.testBit other = false :=
      Nat.testBit_lt_two_pow (Nat.lt_of_lt_of_le fits beyond)
    rw [clear, Bool.false_and, Bool.false_and]

end Words
namespace Levels

/-- Whether no duty cycle of a table is higher than the one for more channels at the same volume. -/
def Monotone (channels : Nat) (levels : Array UInt8) : Prop :=
  ∀ volume < 4, ∀ more < 1 <<< channels, ∀ fewer, Contained fewer more →
    levels.getD (volume <<< channels ||| fewer) 0 ≤ levels.getD (volume <<< channels ||| more) 0

/-- Whether an entry of a table is lower than the one with some channel less. -/
def Lowered (channels : Nat) (levels : Array UInt8) (index : Nat) : Prop :=
  ∃ channel < channels, index.testBit channel = true ∧
    levels.getD index 0 < levels.getD (clearBit index channel) 0

variable {channels : Nat} {levels : Array UInt8}

theorem isLowered_iff (few : channels ≤ 64) {index : Nat} (fits : index < 2 ^ 64) :
    isLowered channels levels index = true ↔ Lowered channels levels index := by
  simp only [isLowered, List.any_eq_true, List.mem_range, Bool.and_eq_true, decide_eq_true_eq]
  refine exists_congr fun channel => and_congr_right fun low => ?_
  have place : channel < 64 := Nat.lt_of_lt_of_le low few
  rw [and_mask_ne_zero_iff fits place, toNat_and_not_mask fits place, UInt64.toNat_ofNat_of_lt' fits]

section Fitting

variable (few : channels ≤ 61)

include few

theorem expected_eq : expected channels = 4 <<< channels := by
  have bits : channels + volumeBits < 64 := by
    rw [volumeBits]
    omega
  rw [expected, ← UInt64.ofNat_add, toNat_mask bits, Nat.pow_add, Nat.shiftLeft_eq, Nat.mul_comm]
  rfl

theorem size_lt : 4 <<< channels < 2 ^ 64 := by
  have most : 2 ^ channels ≤ 2 ^ 61 := Nat.pow_le_pow_right (by decide) few
  rw [Nat.shiftLeft_eq]
  omega

/-- The answer of the check is the first entry that is lowered, if the table has the right size. -/
theorem check_eq (size : levels.size = 4 <<< channels) :
    check channels levels = match (List.range levels.size).find? (isLowered channels levels) with
      | some index => .error (.levelTableOrder index)
      | none => .ok () := by
  rw [check, expected_eq few, size]
  exact if_neg (not_not_intro rfl)

end Fitting

/-- Adding channels one after another does not lower the duty cycle. -/
theorem le_of_contained (steady : ∀ index < 4 <<< channels, ¬Lowered channels levels index)
    {volume : Nat} (selected : volume < 4) (more : Nat) (inside : more < 1 <<< channels) (fewer : Nat)
    (contained : Contained fewer more) :
    levels.getD (volume <<< channels ||| fewer) 0 ≤ levels.getD (volume <<< channels ||| more) 0 := by
  -- The induction takes one channel after another out of the larger set.
  induction more using Nat.strongRecOn with
  | ind more ih =>
    by_cases same : fewer = more
    · rw [same]
      exact UInt8.le_refl _
    · obtain ⟨bit, set, still⟩ := contained.exists_clearBit same
      have low : bit < channels := lt_of_testBit_of_lt inside set
      have smaller : clearBit more bit < more := clearBit_lt set
      have before := ih (clearBit more bit) smaller (Nat.lt_trans smaller inside) still
      have last : levels.getD (volume <<< channels ||| clearBit more bit) 0 ≤
          levels.getD (volume <<< channels ||| more) 0 := by
        rw [← UInt8.not_lt, ← clearBit_shiftLeft_or volume more low]
        intro lower
        refine steady _ (shiftLeft_or_lt selected inside) ⟨bit, low, ?_, lower⟩
        rwa [testBit_shiftLeft_or volume more low]
      exact UInt8.le_trans before last

/-- A table that is lowered somewhere is lowered between two sets of channels at one volume. -/
theorem not_monotone_of_lowered {index : Nat} (within : index < 4 <<< channels)
    (lowered : Lowered channels levels index) : ¬Monotone channels levels := by
  obtain ⟨channel, low, set, lower⟩ := lowered
  intro monotone
  have selected : index >>> channels < 4 := shiftRight_lt_iff.mpr within
  have ordered := monotone _ selected _ (mod_lt_shiftLeft index channels) _
    (contained_clearBit (index % 1 <<< channels) channel)
  rw [← clearBit_shiftLeft_or _ _ low, shiftLeft_or_mod] at ordered
  exact UInt8.not_lt.mpr ordered lower

theorem monotone_iff :
    Monotone channels levels ↔ ∀ index < 4 <<< channels, ¬Lowered channels levels index := by
  constructor
  · intro monotone index within lowered
    exact not_monotone_of_lowered within lowered monotone
  · intro steady volume selected more inside fewer contained
    exact le_of_contained steady selected more inside fewer contained

end Levels

end Buzzer
