import Mathlib.Order.Bounds.Basic
import Buzzer.Pitch
import Buzzer.Proofs.Device.Tuning

/-!
Tables of periods that are made for a timer, and the channels that look them up. A table starts at a lowest
pitch, which the offset of its channel takes away again. It goes on as long as it can, so the channel plays
the pitches of a song from the lowest one on, up to the first whose period the timer cannot hold, unless the
table is full before that. What the periods are does not matter for that.
-/
namespace Buzzer

namespace Pitch

/-! The values of a partial function. -/

section Values

variable {α : Type} {value? : Nat → Option α} {first past : Nat}

/-- Every value stands in its own place. -/
theorem getElem?_valuesFrom {index : Nat} (inside : index < (valuesFrom value? first past).length) :
    (valuesFrom value? first past)[index]? = value? (first + index) := by
  fun_induction valuesFrom value? first past generalizing index with
  | case1 first before value found ih =>
    cases index with
    | zero => rw [List.getElem?_cons_zero, Nat.add_zero, found]
    | succ index =>
      rw [List.length_cons, Nat.add_lt_add_iff_right] at inside
      rw [List.getElem?_cons_succ, ih inside, Nat.add_assoc, Nat.add_comm 1 index]
  | case2 first before gap => exact (Nat.not_lt_zero _ inside).elim
  | case3 first after => exact (Nat.not_lt_zero _ inside).elim

theorem le_zero_iff_of_gap {property : Nat → Prop} (gap : ¬property 0) (count : Nat) :
    count ≤ 0 ↔ ∀ index < count, property index := by
  cases count with
  | zero => simp
  | succ count =>
    apply iff_of_false (Nat.not_succ_le_zero count)
    intro all
    exact gap (all 0 (Nat.succ_pos count))

/-- There are as many values as there are places without a gap. -/
theorem le_length_valuesFrom_iff {count : Nat} :
    count ≤ (valuesFrom value? first past).length ↔
      ∀ index < count, first + index < past ∧ (value? (first + index)).isSome = true := by
  fun_induction valuesFrom value? first past generalizing count with
  | case1 first before value found ih =>
    cases count with
    | zero => simp
    | succ count =>
      have here : first + 0 < past ∧ (value? (first + 0)).isSome = true :=
        ⟨before, by rw [Nat.add_zero, found, Option.isSome_some]⟩
      have shifted (index : Nat) : first + 1 + index = first + (index + 1) := by omega
      rw [List.length_cons, Nat.add_le_add_iff_right, ih, Nat.forall_lt_succ_left, and_iff_right here]
      simp only [shifted]
  | case2 first before gap =>
    apply le_zero_iff_of_gap
    rintro ⟨-, some⟩
    rw [Nat.add_zero, gap] at some
    cases some
  | case3 first after =>
    apply le_zero_iff_of_gap
    rintro ⟨before, -⟩
    exact after before

end Values

/-! Tables. -/

/-- Whether a table can hold so many periods from a lowest pitch on: it has room for them, and they are those of
pitches of a song. -/
structure Tabulates (period? : Nat → Option UInt16) (lowest cap count : Nat) : Prop where
  room : count ≤ cap
  inSong : ∀ pitch, lowest ≤ pitch → pitch < lowest + count → pitch < playablePitches
  timed : ∀ pitch, lowest ≤ pitch → pitch < lowest + count → (period? pitch).isSome = true

section Tables

variable (period? : Nat → Option UInt16) (lowest cap : Nat)

theorem tabulates_iff (count : Nat) :
    Tabulates period? lowest cap count ↔ count ≤ (table period? lowest cap).length := by
  rw [table, List.length_take, Nat.le_min, le_length_valuesFrom_iff]
  constructor
  · intro tabulates
    refine ⟨tabulates.room, ?_⟩
    intro index inside
    exact ⟨tabulates.inSong _ (Nat.le_add_right _ _) (Nat.add_lt_add_left inside _),
      tabulates.timed _ (Nat.le_add_right _ _) (Nat.add_lt_add_left inside _)⟩
  · rintro ⟨room, all⟩
    have here (pitch : Nat) (above : lowest ≤ pitch) (below : pitch < lowest + count) :
        pitch < playablePitches ∧ (period? pitch).isSome = true := by
      obtain ⟨index, rfl⟩ := Nat.exists_eq_add_of_le above
      exact all index (Nat.lt_of_add_lt_add_left below)
    exact ⟨room, fun pitch above below => (here pitch above below).1,
      fun pitch above below => (here pitch above below).2⟩

theorem getElem?_table {index : Nat} (inside : index < (table period? lowest cap).length) :
    (table period? lowest cap)[index]? = period? (lowest + index) := by
  rw [table, List.length_take, Nat.lt_min] at inside
  rw [table, List.getElem?_take_of_lt inside.1, getElem?_valuesFrom inside.2]

/-- A table does not reach past the last pitch of a song, wherever it starts. -/
theorem past_table_le : lowest + (table period? lowest cap).length ≤ max lowest playablePitches := by
  have tabulates := (tabulates_iff period? lowest cap _).mpr (Nat.le_refl _)
  by_cases none : (table period? lowest cap).length = 0
  · omega
  · have last := tabulates.inSong (lowest + (table period? lowest cap).length - 1) (by omega) (by omega)
    omega

end Tables

end Pitch

namespace Channel

/-- A channel with a table of periods from a lowest pitch on. -/
def tabled (timerClock : UInt32) (lowest : UInt8) (table : List UInt16) : Channel :=
  { timerClock, periods := table.toArray, offset := -lowest.toNat }

/-- Whether a table agrees with the periods that a timer has. It is the longest there can be, from a lowest
pitch on and with `cap` periods at most. A channel with the table plays exactly the pitches of the table, with
the periods that the timer has for them, and its range says so. -/
structure Agrees (period? : Nat → Option UInt16) (timerClock : UInt32) (lowest : UInt8) (cap : Nat)
    (table : List UInt16) : Prop where
  longest : IsGreatest {count | Pitch.Tabulates period? lowest.toNat cap count} table.length
  plays : ∀ pitch < 0x100, (tabled timerClock lowest table).period? pitch =
    if lowest.toNat ≤ pitch ∧ pitch < lowest.toNat + table.length then period? pitch else none
  range : (tabled timerClock lowest table).range = ⟨lowest.toNat, lowest.toNat + table.length⟩

section Agrees

variable (period? : Nat → Option UInt16) (timerClock : UInt32) (lowest : UInt8) (cap : Nat)

theorem period?_tabled {pitch : Nat} (small : pitch < 0x100) :
    (tabled timerClock lowest (Pitch.table period? lowest.toNat cap)).period? pitch =
      if lowest.toNat ≤ pitch ∧ pitch < lowest.toNat + (Pitch.table period? lowest.toNat cap).length then
        period? pitch
      else none := by
  have lowestSmall := lowest.toNat_lt
  have word : Int.bmod (pitch + -lowest.toNat) 0x10000 = pitch + -lowest.toNat :=
    Int.bmod_eq_of_le (by omega) (by omega)
  simp only [tabled, Channel.period?, word, List.getElem?_toArray]
  by_cases below : (pitch : Int) + -(lowest.toNat : Int) < 0
  · rw [if_pos below, if_neg (by omega)]
  · obtain ⟨index, rfl⟩ := Nat.exists_eq_add_of_le (show lowest.toNat ≤ pitch by omega)
    have place : ((lowest.toNat + index : Nat) + -(lowest.toNat : Int)).toNat = index := by omega
    rw [if_neg below, place]
    by_cases inside : index < (Pitch.table period? lowest.toNat cap).length
    · rw [if_pos (by omega), Pitch.getElem?_table period? lowest.toNat cap inside]
    · rw [if_neg (by omega), List.getElem?_eq_none (Nat.le_of_not_lt inside)]

theorem range_tabled :
    (tabled timerClock lowest (Pitch.table period? lowest.toNat cap)).range =
      ⟨lowest.toNat, lowest.toNat + (Pitch.table period? lowest.toNat cap).length⟩ := by
  have small := lowest.toNat_lt
  have ends := Pitch.past_table_le period? lowest.toNat cap
  generalize Pitch.table period? lowest.toNat cap = table at ends ⊢
  have begins := (tabled timerClock lowest table).first_range
  have past := (tabled timerClock lowest table).past_range
  have offset : (tabled timerClock lowest table).offset = -lowest.toNat := rfl
  have size : (tabled timerClock lowest table).periods.size = table.length := List.size_toArray
  rw [offset] at begins
  rw [Channel.past, offset, size] at past
  rw [playablePitches] at ends
  generalize (tabled timerClock lowest table).range = range at begins past ⊢
  obtain ⟨first, last⟩ := range
  simp only [PitchRange.mk.injEq] at begins past ⊢
  omega

theorem agrees_table :
    Agrees period? timerClock lowest cap (Pitch.table period? lowest.toNat cap) where
  longest := by
    refine ⟨(Pitch.tabulates_iff period? lowest.toNat cap _).mpr (Nat.le_refl _), ?_⟩
    intro other tabulates
    exact (Pitch.tabulates_iff period? lowest.toNat cap other).mp tabulates
  plays := fun _ small => period?_tabled period? timerClock lowest cap small
  range := range_tabled period? timerClock lowest cap

end Agrees

/-- A table agrees with the periods that it is made from, wherever it starts and whatever periods there are, and
so do the tables for timers, whatever is computed with floating-point numbers. A table ends where it is full, at
the last pitch of a song, or before the first pitch that there is no period for. -/
theorem table_agrees_with_timer (timerClock : UInt32) (lowest : UInt8) (cap : Nat) :
    (∀ period? : Nat → Option UInt16,
      Agrees period? timerClock lowest cap (Pitch.table period? lowest.toNat cap)) ∧
    ∀ [FloatLibrary], Agrees (Pitch.period? timerClock) timerClock lowest cap
      (Pitch.periods timerClock lowest.toNat cap) :=
  ⟨fun period? => agrees_table period? timerClock lowest cap,
    agrees_table (Pitch.period? timerClock) timerClock lowest cap⟩

/-- The periods of a timer with a clock of 1 kHz, for the pitches from 20 on. -/
def slowPeriod? (pitch : Nat) : Option UInt16 :=
  if pitch < 29 then some 1 else if pitch < 48 then some 0 else none

/-- A slow timer has no period for the pitches from 48 on, so its table ends there. -/
theorem slow_table_ends :
    Pitch.table slowPeriod? 26 73 = [1, 1, 1] ++ List.replicate 19 0 ∧
      ((tabled 1000 26 (Pitch.table slowPeriod? 26 73)).period? 28 = some 1 ∧
        (tabled 1000 26 (Pitch.table slowPeriod? 26 73)).period? 47 = some 0 ∧
        (tabled 1000 26 (Pitch.table slowPeriod? 26 73)).period? 48 = none) ∧
      (tabled 1000 26 (Pitch.table slowPeriod? 26 73)).range = ⟨26, 48⟩ ∧
      ¬Pitch.Tabulates slowPeriod? 26 73 23 := by
  have table : Pitch.table slowPeriod? 26 73 = [1, 1, 1] ++ List.replicate 19 0 := by cbv
  obtain ⟨longest, plays, range⟩ := (table_agrees_with_timer 1000 26 73).1 slowPeriod?
  have size : (Pitch.table slowPeriod? (26 : UInt8).toNat 73).length = 22 := congrArg List.length table
  rw [size] at longest plays range
  refine ⟨table, ⟨plays 28 (by decide), plays 47 (by decide), plays 48 (by decide)⟩, range, ?_⟩
  intro more
  exact absurd (longest.2 more) (by decide)

end Channel

end Buzzer
