import Buzzer.Proofs.Draft.Durations

/-!
No duration array is shorter than the one that is written. A writer takes the values one by one, and counts
those that are equal to the one before them until a mark is worth it. Whatever bytes a reader takes the same
values from, every entry that it reads saves the writer no more bytes than the entry has.
-/
namespace Buzzer

/-- A duration array being written: the bytes so far, the running duration minus one, and how many notes
reuse it without a mark. -/
structure DurationWriter where
  bytes : List UInt8 := []
  running : Nat := 0
  run : Nat := 0

theorem Durations.maxRun_pos : 0 < maxRun := by decide

namespace DurationWriter

/-- Marks the notes that reuse the running duration, if there are any. -/
def flush (writer : DurationWriter) : DurationWriter :=
  { writer with bytes := writer.bytes ++ Durations.repeatMark writer.run, run := 0 }

/-- Adds the duration, minus one, of the next note. -/
def push (writer : DurationWriter) (value : Nat) : DurationWriter :=
  if value = writer.running then
    let longer := { writer with run := writer.run + 1 }
    if Durations.maxRun ≤ longer.run then longer.flush else longer
  else
    let marked := writer.flush
    { marked with bytes := marked.bytes ++ Durations.entry value, running := value }

def finish (writer : DurationWriter) : List UInt8 := writer.flush.bytes

/-- The duration array that comes of pushing some values. -/
def write (values : List Nat) : List UInt8 := (values.foldl push {}).finish

theorem finish_foldl_push (values : List Nat) {writer : DurationWriter}
    (few : writer.run < Durations.maxRun) :
    (values.foldl push writer).finish =
      writer.bytes ++ Durations.encodeFrom writer.running writer.run values := by
  induction values generalizing writer with
  | nil => rfl
  | cons value values ih =>
    rw [List.foldl_cons, Durations.encodeFrom]
    by_cases same : value = writer.running
    · by_cases full : writer.run + 1 = Durations.maxRun
      · have pushed : writer.push value =
            { writer with bytes := writer.bytes ++ Durations.repeatMark Durations.maxRun, run := 0 } := by
          simp only [push, same, full, Nat.le_refl, if_true, flush]
        rw [pushed, ih Durations.maxRun_pos, if_pos same, if_pos full, List.append_assoc]
      · have pushed : writer.push value = { writer with run := writer.run + 1 } := by
          have room : ¬Durations.maxRun ≤ writer.run + 1 := by omega
          simp only [push, same, room, if_true, if_false]
        rw [pushed, ih (by simp only; omega), if_pos same, if_neg full]
    · have pushed : writer.push value =
          { bytes := writer.bytes ++ Durations.repeatMark writer.run ++ Durations.entry value
            running := value
            run := 0 } := by
        simp only [push, same, if_false, flush]
      rw [pushed, ih Durations.maxRun_pos, if_neg same]
      simp only [List.append_assoc]

/-- The values come to the same bytes one by one and all at once. -/
theorem write_eq_encode (values : List Nat) : write values = Durations.encode values :=
  finish_foldl_push values Durations.maxRun_pos

end DurationWriter

namespace Durations

/-! The bytes that are still to be written. -/

theorem length_repeatMark (run : Nat) : (repeatMark run).length = if run = 0 then 0 else 1 := by
  cases run <;> rfl

theorem length_fullMark : (repeatMark maxRun).length = 1 := rfl

/-- Notes that are not yet marked take a byte more at most, and none less. -/
theorem length_encodeFrom_between (running : Nat) (values : List Nat) {few many : Nat}
    (ordered : few ≤ many) (bounded : many < maxRun) :
    (encodeFrom running few values).length ≤ (encodeFrom running many values).length ∧
      (encodeFrom running many values).length ≤ (encodeFrom running few values).length + 1 := by
  induction values generalizing few many with
  | nil =>
    simp only [encodeFrom, length_repeatMark]
    split <;> split <;> omega
  | cons value values ih =>
    by_cases same : value = running
    · by_cases full : many + 1 = maxRun
      · have marked : (encodeFrom running many (value :: values)).length =
            (encodeFrom running 0 values).length + 1 := by
          rw [encodeFrom, if_pos same, if_pos full, List.length_append, length_fullMark, Nat.add_comm]
        by_cases both : few = many
        · subst both
          exact ⟨Nat.le_refl _, Nat.le_succ _⟩
        · have open' : ¬few + 1 = maxRun := by omega
          have shorter := ih (Nat.zero_le (few + 1)) (by omega)
          rw [marked, encodeFrom, if_pos same, if_neg open']
          omega
      · rw [encodeFrom, encodeFrom, if_pos same, if_pos same, if_neg full, if_neg (by omega)]
        exact ih (by omega) (by omega)
    · rw [encodeFrom, encodeFrom, if_neg same, if_neg same]
      simp only [List.length_append, length_repeatMark]
      split <;> split <;> omega

/-- A mark is worth a byte: no run that one mark can hold takes more than that. -/
theorem length_encodeFrom_replicate (running : Nat) (values : List Nat) (more : Nat) {run : Nat}
    (begun : run < maxRun) (fits : run + more ≤ maxRun) :
    (encodeFrom running run (List.replicate more running ++ values)).length ≤
      (encodeFrom running 0 values).length + 1 := by
  induction more generalizing run with
  | zero => exact (length_encodeFrom_between running values (Nat.zero_le run) begun).2
  | succ more ih =>
    rw [List.replicate_succ, List.cons_append, encodeFrom, if_pos rfl]
    by_cases full : run + 1 = maxRun
    · have last : more = 0 := by omega
      rw [if_pos full, List.length_append, length_fullMark, last]
      exact Nat.le_of_eq (Nat.add_comm _ _)
    · rw [if_neg full]
      exact ih (by omega) (by omega)

theorem length_entry (value : Nat) : (entry value).length = if value < repeatBase then 1 else 2 := by
  unfold entry
  split <;> rfl

/-- An entry is worth its bytes. -/
theorem length_encodeFrom_cons (running value : Nat) (values : List Nat) :
    (encodeFrom running 0 (value :: values)).length ≤
      (encodeFrom value 0 values).length + (entry value).length := by
  by_cases same : value = running
  · have most := (length_encodeFrom_between value values (Nat.zero_le 1) (by decide)).2
    have some : 1 ≤ (entry value).length := by
      rw [length_entry]
      split <;> omega
    subst same
    rw [encodeFrom, if_pos rfl, if_neg (by decide)]
    exact Nat.le_trans most (Nat.add_le_add_left some _)
  · rw [encodeFrom, if_neg same, repeatMark, List.nil_append, List.length_append]
    exact Nat.le_of_eq (Nat.add_comm _ _)

end Durations

namespace DurationReader

open Durations

variable {reader after last : DurationReader} {values : List Nat}

/-- All that a reader can do for a note: it repeats the running duration, or it reads a mark that repeats it,
or it reads an entry, which has no fewer bytes than the one that is written for the same duration. -/
theorem next?_cases (step : reader.next? = some after) :
    (∃ repeats, reader.repeats = repeats + 1 ∧ after = { reader with repeats }) ∨
      (reader.repeats = 0 ∧ after.running = reader.running ∧ after.repeats < maxRun ∧
        reader.bytes.length = after.bytes.length + 1) ∨
      (reader.repeats = 0 ∧ after.repeats = 0 ∧
        after.bytes.length + (entry after.running).length ≤ reader.bytes.length) := by
  unfold next? at step
  cases more : reader.repeats with
  | succ repeats =>
    rw [more, if_pos (Nat.succ_pos _), Nat.add_sub_cancel] at step
    cases step
    exact .inl ⟨repeats, rfl, rfl⟩
  | zero =>
    refine .inr ?_
    rw [more, if_neg (Nat.lt_irrefl 0)] at step
    split at step
    · cases step
    next first rest bytes =>
      simp only at step
      split at step
      next long =>
        split at step
        · cases step
        next low rest =>
          cases step
          refine .inr ⟨rfl, rfl, ?_⟩
          rw [bytes, length_entry]
          simp only [List.length_cons]
          split <;> omega
      next short =>
        split at step
        next marks =>
          cases step
          refine .inl ⟨rfl, rfl, ?_, by rw [bytes, List.length_cons]⟩
          have small := first.toNat_lt
          simp only [repeatBase, longBase, maxRun] at short marks ⊢
          omega
        next below =>
          cases step
          refine .inr ⟨rfl, rfl, ?_⟩
          refine Nat.le_of_eq ?_
          rw [bytes, length_entry, if_pos (Nat.lt_of_not_le below), List.length_cons]

/-- A reader gives the running duration first for as long as it is to be repeated. -/
theorem Yields.take_repeats (yields : reader.Yields values last) :
    values.take reader.repeats = List.replicate (min reader.repeats values.length) reader.running := by
  induction yields with
  | nil => simp
  | @cons reader after value values last step running later ih =>
    cases more : reader.repeats with
    | zero => simp
    | succ repeats =>
      rw [next?, more, if_pos (Nat.succ_pos _), Nat.add_sub_cancel] at step
      cases step
      rw [List.take_succ_cons, ih, List.length_cons, Nat.add_min_add_right, List.replicate_succ, ← running]

/-- What a reader has read is no shorter than what a writer needs for it, from the first value that is not
repeated on. -/
theorem Yields.length_le (yields : reader.Yields values last) :
    (encodeFrom reader.running 0 (values.drop reader.repeats)).length + last.bytes.length ≤
      reader.bytes.length := by
  induction yields with
  | @nil reader =>
    refine Nat.le_of_eq ?_
    rw [List.drop_nil, encodeFrom, repeatMark, List.length_nil, Nat.zero_add]
  | @cons reader after value values last step running later ih =>
    rcases next?_cases step with ⟨repeats, more, rfl⟩ | ⟨none, kept, few, size⟩ | ⟨none, fresh, size⟩
    · rw [more, List.drop_succ_cons]
      exact ih
    · have first : value = reader.running := running.symm.trans kept
      have split : value :: values =
          List.replicate (min after.repeats values.length + 1) reader.running ++
            values.drop after.repeats := by
        rw [List.replicate_succ, List.cons_append, ← kept, ← later.take_repeats, List.take_append_drop,
          running]
      have worth := length_encodeFrom_replicate reader.running (values.drop after.repeats)
        (min after.repeats values.length + 1) maxRun_pos (by omega)
      rw [kept] at ih
      rw [none, List.drop_zero, split]
      omega
    · have worth := length_encodeFrom_cons reader.running value values
      rw [fresh, List.drop_zero] at ih
      rw [none, List.drop_zero]
      rw [running] at ih size
      omega

end DurationReader

/-- The durations of a track are read back from the array that is written for them, up to its last byte, and
from no shorter array. -/
theorem shortest_durations {values : List Nat} (small : ∀ value ∈ values, value < maxDuration) :
    DurationWriter.write values = Durations.encode values ∧
      (∃ running, DurationReader.Yields ⟨DurationWriter.write values, 0, 0⟩ values ⟨[], running, 0⟩) ∧
      ∀ bytes last, DurationReader.Yields ⟨bytes, 0, 0⟩ values last →
        (DurationWriter.write values).length ≤ bytes.length := by
  have same := DurationWriter.write_eq_encode values
  rw [same]
  refine ⟨rfl, ?_, ?_⟩
  · have yields := DurationReader.yields_encode small []
    rw [List.append_nil] at yields
    exact ⟨_, yields⟩
  · intro bytes last yields
    have least := yields.length_le
    rw [List.drop_zero] at least
    exact Nat.le_trans (Nat.le_add_right _ _) least

/-- A run of 66 takes two marks after its first value, and a long duration takes two bytes. -/
theorem six_bytes_needed :
    (∀ value ∈ List.replicate 66 5 ++ [300, 300], value < maxDuration) ∧
      DurationWriter.write (List.replicate 66 5 ++ [300, 300]) = [0x05, 0xbf, 0x80, 0xc1, 0x2c, 0x80] ∧
      ∀ bytes last, DurationReader.Yields ⟨bytes, 0, 0⟩ (List.replicate 66 5 ++ [300, 300]) last →
        6 ≤ bytes.length := by
  have small : ∀ value ∈ List.replicate 66 5 ++ [300, 300], value < maxDuration := by decide
  have written : DurationWriter.write (List.replicate 66 5 ++ [300, 300]) =
      [0x05, 0xbf, 0x80, 0xc1, 0x2c, 0x80] := by cbv
  obtain ⟨-, -, least⟩ := shortest_durations small
  rw [written] at least
  exact ⟨small, written, least⟩

end Buzzer
