import Buzzer.Proofs.Song.Accesses
import Buzzer.Song.Check

/-!
What loading a song checks. A track passes the check exactly if its cursor is read to its end when it
holds no bytes but those of its two arrays, which is to say that playing it never leaves them. A song
is loaded exactly if it is a row of such blocks.
-/
namespace Buzzer

theorem NoteCode.byte_of_ofByte (byte : UInt8) :
    match NoteCode.ofByte byte with
    | .stop => byte.toNat = stopByte
    | .pause _ => byte.toNat ≠ stopByte ∧ pauseBase ≤ byte.toNat
    | .timed _ _ => byte.toNat ≠ stopByte ∧ ¬pauseBase ≤ byte.toNat := by
  unfold NoteCode.ofByte
  by_cases stops : byte.toNat = stopByte
  · simp only [stops, if_true]
  · by_cases pauses : pauseBase ≤ byte.toNat
    · simp [stops, pauses]
    · by_cases holds : pausesBase ≤ byte.toNat <;> simp [stops, pauses, holds]

namespace Song

variable {channel : UInt8} {repeats : Nat} {byte : UInt8} {notes durations : List UInt8}

theorem checkTrack_stop (code : NoteCode.ofByte byte = .stop) :
    checkTrack channel repeats (byte :: notes) durations = .ok () := by
  have value := NoteCode.byte_of_ofByte byte
  simp only [code] at value
  rw [checkTrack.eq_def]
  simp only [value, if_true]

theorem checkTrack_pause {ticks : Nat} (code : NoteCode.ofByte byte = .pause ticks) :
    checkTrack channel repeats (byte :: notes) durations =
      checkTrack channel repeats notes durations := by
  have value := NoteCode.byte_of_ofByte byte
  simp only [code] at value
  rw [checkTrack.eq_def]
  simp only [value, if_false, if_true]

/-- A note that takes a duration is checked by the reader of the duration array. -/
theorem checkTrack_timed {note : Note} {pauses : Bool} (running : Nat)
    (code : NoteCode.ofByte byte = .timed note pauses) :
    checkTrack channel repeats (byte :: notes) durations =
      match DurationReader.next? ⟨durations, running, repeats⟩ with
      | none => .error (.durationOverrun channel)
      | some after => checkTrack channel after.repeats notes after.bytes := by
  have value := NoteCode.byte_of_ofByte byte
  simp only [code] at value
  rw [checkTrack.eq_def]
  simp only [value, if_false]
  unfold DurationReader.next?
  by_cases repeating : 0 < repeats
  · simp only [repeating, if_true]
  · have none : repeats = 0 := by omega
    subst none
    simp only [Nat.lt_irrefl, if_false]
    cases durations with
    | nil => rfl
    | cons first rest =>
      by_cases long : longBase ≤ first.toNat
      · simp only [long, if_true]
        cases rest <;> rfl
      · simp only [long, if_false]
        by_cases marks : repeatBase ≤ first.toNat
        · simp only [marks, if_true]
        · simp only [marks, if_false]

/-- A track passes the check exactly if it is read to its end. -/
theorem checkTrack_iff_complete (channel : UInt8) (cursor : Cursor) (notes : List UInt8)
    (here : cursor.notes = some notes) :
    checkTrack channel cursor.durations.repeats notes cursor.durations.bytes = .ok () ↔
      cursor.reading.complete = true := by
  induction size : cursor.budget using Nat.strongRecOn generalizing cursor notes with
  | ind size ih =>
    subst size
    cases pausing : cursor.durations.running.testBit pauseBit with
    | true =>
      -- The check has no step for the pause, which leaves both arrays as they are.
      have step := Cursor.next_pausing here pausing
      rw [Cursor.reading_event step]
      exact ih _ (Cursor.budget_next step) cursor.inPause notes here rfl
    | false =>
      cases notes with
      | nil =>
        rw [Cursor.reading_overrun (Cursor.next_nil here pausing)]
        simp [checkTrack]
      | cons byte rest =>
        cases code : NoteCode.ofByte byte with
        | stop =>
          rw [Cursor.reading_finish (Cursor.next_stop here pausing code), checkTrack_stop code]
          simp only
        | pause ticks =>
          have step := Cursor.next_pause here pausing code
          rw [Cursor.reading_event step, checkTrack_pause code]
          exact ih _ (Cursor.budget_next step) (cursor.inRest rest ticks) rest rfl rfl
        | timed note pauses =>
          rw [checkTrack_timed cursor.durations.running code]
          cases found : cursor.durations.next? with
          | none =>
            rw [Cursor.reading_overrun (Cursor.next_starved here pausing code found)]
            simp
          | some durations =>
            have step := Cursor.next_timed here pausing code found
            rw [Cursor.reading_event step]
            exact ih _ (Cursor.budget_next step) (cursor.inNote rest note pauses durations) rest rfl rfl

end Song

end Buzzer
