import Buzzer.Song.Durations

/-!
The duration array gives back the values that were written. The array is written with a run of equal
values that are not yet marked, so what is read back from any point of it is that run and the values
after it.
-/
namespace Buzzer

/-- The reader gives these values to the notes that come next, and is left as `last` then. -/
inductive DurationReader.Yields : DurationReader → List Nat → DurationReader → Prop where
  | nil {reader} : Yields reader [] reader
  | cons {reader after value values last} (step : reader.next? = some after)
      (running : after.running = value) (later : Yields after values last) :
      Yields reader (value :: values) last

namespace DurationReader

variable {rest : List UInt8} {running : Nat} {values : List Nat} {last : DurationReader}

theorem yields_repeats (later : Yields ⟨rest, running, 0⟩ values last) (repeats : Nat) :
    Yields ⟨rest, running, repeats⟩ (List.replicate repeats running ++ values) last := by
  induction repeats with
  | zero => exact later
  | succ repeats ih =>
    rw [List.replicate_succ, List.cons_append]
    refine .cons ?_ ?_ ih
    · rw [next?, if_pos (Nat.succ_pos _), Nat.add_sub_cancel]
    · rfl

/-- The mark of a run gives the running value to every note of the run. -/
theorem yields_repeatMark (later : Yields ⟨rest, running, 0⟩ values last) {run : Nat}
    (few : run ≤ Durations.maxRun) :
    Yields ⟨Durations.repeatMark run ++ rest, running, 0⟩ (List.replicate run running ++ values)
      last := by
  cases run with
  | zero => exact later
  | succ run =>
    have few' : run < 0x40 := few
    have value : (UInt8.ofNat (repeatBase + run)).toNat = repeatBase + run := by
      rw [UInt8.toNat_ofNat', repeatBase]
      omega
    rw [Durations.repeatMark, List.singleton_append, List.replicate_succ, List.cons_append]
    refine .cons ?_ ?_ (yields_repeats later run)
    · have short : ¬longBase ≤ repeatBase + run := by
        rw [longBase, repeatBase]
        omega
      have marks : repeatBase ≤ repeatBase + run := Nat.le_add_right _ _
      simp only [next?, Nat.lt_irrefl, if_false, value, short, marks, if_true, Nat.add_sub_cancel_left]
    · rfl

theorem yields_entry {value : Nat} (small : value < maxDuration)
    (later : Yields ⟨rest, value, 0⟩ values last) :
    Yields ⟨Durations.entry value ++ rest, running, 0⟩ (value :: values) last := by
  have bound : value < 0x4000 := small
  refine .cons ?_ ?_ later
  · unfold Durations.entry
    by_cases short : value < repeatBase
    · have limit : value < 0x80 := short
      have byte : (UInt8.ofNat value).toNat = value := by
        rw [UInt8.toNat_ofNat']
        omega
      have notLong : ¬longBase ≤ value := by
        rw [longBase]
        omega
      have notMark : ¬repeatBase ≤ value := Nat.not_le_of_lt short
      simp only [short, if_true, List.singleton_append, next?, Nat.lt_irrefl, if_false, byte, notLong,
        notMark]
    · have high : (UInt8.ofNat (longBase + value / 0x100)).toNat = longBase + value / 0x100 := by
        rw [UInt8.toNat_ofNat', longBase]
        omega
      have low : (UInt8.ofNat value).toNat = value % 0x100 := UInt8.toNat_ofNat'
      have long : longBase ≤ longBase + value / 0x100 := Nat.le_add_right _ _
      have joined : (longBase + value / 0x100) % 0x40 * 0x100 + value % 0x100 = value := by
        rw [longBase]
        omega
      simp only [short, if_false, List.cons_append, List.nil_append, next?, Nat.lt_irrefl, high, long,
        if_true, low, joined]
  · rfl

theorem yields_encodeFrom (values : List Nat) {running run : Nat} (few : run < Durations.maxRun)
    (small : ∀ value ∈ values, value < maxDuration) (junk : List UInt8) :
    Yields ⟨Durations.encodeFrom running run values ++ junk, running, 0⟩
      (List.replicate run running ++ values) ⟨junk, values.getLastD running, 0⟩ := by
  induction values generalizing running run with
  | nil => exact yields_repeatMark .nil (Nat.le_of_lt few)
  | cons value values ih =>
    have first := small value List.mem_cons_self
    have others : ∀ other ∈ values, other < maxDuration :=
      fun other member => small other (List.mem_cons_of_mem _ member)
    rw [Durations.encodeFrom, List.getLastD_cons]
    by_cases same : value = running
    · subst same
      have longer : List.replicate run value ++ value :: values =
          List.replicate (run + 1) value ++ values := by
        rw [List.replicate_succ', List.append_assoc, List.singleton_append]
      rw [if_pos rfl, longer]
      by_cases full : run + 1 = Durations.maxRun
      · rw [if_pos full, List.append_assoc, full]
        have later := @ih value 0 (by decide) others
        exact yields_repeatMark later (Nat.le_refl _)
      · rw [if_neg full]
        exact ih (by omega) others
    · rw [if_neg same, List.append_assoc, List.append_assoc]
      have later := @ih value 0 (by decide) others
      exact yields_repeatMark (yields_entry first later) (Nat.le_of_lt few)

/-- The values of a duration array are read back from it, whatever bytes follow it, and only those bytes are
left. -/
theorem yields_encode {values : List Nat} (small : ∀ value ∈ values, value < maxDuration)
    (junk : List UInt8) :
    Yields ⟨Durations.encode values ++ junk, 0, 0⟩ values ⟨junk, values.getLastD 0, 0⟩ := by
  have yields := @yields_encodeFrom values 0 0 (by decide) small junk
  rwa [List.replicate_zero, List.nil_append] at yields

end DurationReader

end Buzzer
