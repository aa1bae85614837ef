import Buzzer.Song.Basic

/-!
Reading a track one step at a time. A step either makes a note current, ends the track or needs a
byte past the end of the song, and it depends neither on the current note nor on the ticks left of it.
-/
namespace Buzzer

namespace Cursor

/-- The cursor in the pause after the note before. -/
def inPause (cursor : Cursor) : Cursor :=
  { cursor with
    durations.running := cursor.durations.running % pauseMark
    note := .rest
    left := cursor.pause }

def inRest (cursor : Cursor) (rest : List UInt8) (ticks : Nat) : Cursor :=
  { cursor with notes := some rest, note := .rest, left := ticks - 1 }

/-- The cursor in a note whose duration has been found. -/
def inNote (cursor : Cursor) (rest : List UInt8) (note : Note) (pauses : Bool)
    (durations : DurationReader) : Cursor :=
  { cursor with
    notes := some rest
    durations := { durations with
      running := if pauses then durations.running ||| pauseMark else durations.running }
    note
    left := durations.running }

/-- What the next step of a cursor comes to, by what the cursor finds. -/
inductive Takes (cursor : Cursor) : Step → Prop where
  | ended (here : cursor.notes = none) : Takes cursor (.finish cursor)
  | pausing {notes} (here : cursor.notes = some notes)
      (pausing : cursor.durations.running.testBit pauseBit = true) :
      Takes cursor (.event ⟨.rest, cursor.pause + 1⟩ cursor.inPause)
  | nil (here : cursor.notes = some [])
      (playing : cursor.durations.running.testBit pauseBit = false) : Takes cursor .overrun
  | stop {byte rest} (here : cursor.notes = some (byte :: rest))
      (playing : cursor.durations.running.testBit pauseBit = false)
      (code : NoteCode.ofByte byte = .stop) :
      Takes cursor (.finish { cursor with notes := none, note := .rest })
  | pause {byte rest ticks} (here : cursor.notes = some (byte :: rest))
      (playing : cursor.durations.running.testBit pauseBit = false)
      (code : NoteCode.ofByte byte = .pause ticks) :
      Takes cursor (.event ⟨.rest, ticks - 1 + 1⟩ (cursor.inRest rest ticks))
  | starved {byte rest note pauses} (here : cursor.notes = some (byte :: rest))
      (playing : cursor.durations.running.testBit pauseBit = false)
      (code : NoteCode.ofByte byte = .timed note pauses) (starved : cursor.durations.next? = none) :
      Takes cursor .overrun
  | timed {byte rest note pauses durations} (here : cursor.notes = some (byte :: rest))
      (playing : cursor.durations.running.testBit pauseBit = false)
      (code : NoteCode.ofByte byte = .timed note pauses)
      (found : cursor.durations.next? = some durations) :
      Takes cursor (.event ⟨note, durations.running + 1⟩ (cursor.inNote rest note pauses durations))

section Steps

variable {cursor : Cursor} {notes rest : List UInt8} {byte : UInt8}

theorem next_ended (here : cursor.notes = none) : cursor.next = .finish cursor := by
  simp only [next, here]

theorem next_pausing (here : cursor.notes = some notes)
    (pausing : cursor.durations.running.testBit pauseBit = true) :
    cursor.next = .event ⟨.rest, cursor.pause + 1⟩ cursor.inPause := by
  simp only [next, here, pausing, if_true, begin, inPause]

theorem next_nil (here : cursor.notes = some [])
    (playing : cursor.durations.running.testBit pauseBit = false) : cursor.next = .overrun := by
  simp only [next, here, playing, Bool.false_eq_true, if_false]

theorem next_stop (here : cursor.notes = some (byte :: rest))
    (playing : cursor.durations.running.testBit pauseBit = false)
    (code : NoteCode.ofByte byte = .stop) :
    cursor.next = .finish { cursor with notes := none, note := .rest } := by
  simp only [next, here, playing, code, Bool.false_eq_true, if_false]

theorem next_pause {ticks : Nat} (here : cursor.notes = some (byte :: rest))
    (playing : cursor.durations.running.testBit pauseBit = false)
    (code : NoteCode.ofByte byte = .pause ticks) :
    cursor.next = .event ⟨.rest, ticks - 1 + 1⟩ (cursor.inRest rest ticks) := by
  simp only [next, here, playing, code, Bool.false_eq_true, if_false, begin, inRest]

theorem next_starved {note : Note} {pauses : Bool} (here : cursor.notes = some (byte :: rest))
    (playing : cursor.durations.running.testBit pauseBit = false)
    (code : NoteCode.ofByte byte = .timed note pauses) (starved : cursor.durations.next? = none) :
    cursor.next = .overrun := by
  simp only [next, here, playing, code, starved, Bool.false_eq_true, if_false]

theorem next_timed {note : Note} {pauses : Bool} {durations : DurationReader}
    (here : cursor.notes = some (byte :: rest))
    (playing : cursor.durations.running.testBit pauseBit = false)
    (code : NoteCode.ofByte byte = .timed note pauses)
    (found : cursor.durations.next? = some durations) :
    cursor.next = .event ⟨note, durations.running + 1⟩ (cursor.inNote rest note pauses durations) := by
  simp only [next, here, playing, code, found, Bool.false_eq_true, if_false, begin, inNote]

theorem takes_next (cursor : Cursor) : cursor.Takes cursor.next := by
  cases here : cursor.notes with
  | none =>
    rw [next_ended here]
    exact .ended here
  | some notes =>
    cases playing : cursor.durations.running.testBit pauseBit with
    | true =>
      rw [next_pausing here playing]
      exact .pausing here playing
    | false =>
      cases notes with
      | nil =>
        rw [next_nil here playing]
        exact .nil here playing
      | cons byte rest =>
        cases code : NoteCode.ofByte byte with
        | stop =>
          rw [next_stop here playing code]
          exact .stop here playing code
        | pause ticks =>
          rw [next_pause here playing code]
          exact .pause here playing code
        | timed note pauses =>
          cases found : cursor.durations.next? with
          | none =>
            rw [next_starved here playing code found]
            exact .starved here playing code found
          | some durations =>
            rw [next_timed here playing code found]
            exact .timed here playing code found

end Steps

theorem reading_event {cursor after : Cursor} {event : Event}
    (step : cursor.next = .event event after) :
    cursor.reading = ⟨event :: after.reading.events, after.reading.complete⟩ := by
  rw [reading]
  split
  next found _ same =>
    rw [step] at same
    cases same
    rfl
  next same => simp [step] at same
  next same => simp [step] at same

theorem reading_finish {cursor after : Cursor} (step : cursor.next = .finish after) :
    cursor.reading = ⟨[], true⟩ := by
  rw [reading]
  split
  next same => simp [step] at same
  next => rfl
  next same => simp [step] at same

theorem reading_overrun {cursor : Cursor} (step : cursor.next = .overrun) :
    cursor.reading = ⟨[], false⟩ := by
  rw [reading]
  split
  next same => simp [step] at same
  next same => simp [step] at same
  next => rfl

/-- Everything that a step can come to. -/
theorem next_trichotomy (cursor : Cursor) :
    (∃ after, cursor.next = begin after ∧ after.isEnded = false) ∨
      (∃ after, cursor.next = .finish after ∧ after.isEnded = true) ∨ cursor.next = .overrun := by
  unfold next
  split
  next ended => exact .inr (.inl ⟨_, rfl, by simp [isEnded, ended]⟩)
  next notes here =>
    split
    · exact .inl ⟨_, rfl, by simp [isEnded, here]⟩
    · split
      · exact .inr (.inr rfl)
      · split
        · exact .inr (.inl ⟨_, rfl, rfl⟩)
        · exact .inl ⟨_, rfl, rfl⟩
        · split
          · exact .inr (.inr rfl)
          · exact .inl ⟨_, rfl, rfl⟩

theorem event_of_next {cursor after : Cursor} {event : Event}
    (step : cursor.next = .event event after) :
    after.isEnded = false ∧ after.note = event.note ∧ after.left + 1 = event.ticks := by
  rcases next_trichotomy cursor with ⟨found, same, playing⟩ | ⟨found, same, _⟩ | same
  · rw [step, begin, Step.event.injEq] at same
    obtain ⟨rfl, rfl⟩ := same
    exact ⟨playing, rfl, rfl⟩
  · rw [step] at same
    cases same
  · rw [step] at same
    cases same

theorem isEnded_of_finish {cursor after : Cursor} (step : cursor.next = .finish after) :
    after.isEnded = true := by
  rcases next_trichotomy cursor with ⟨found, same, _⟩ | ⟨found, same, ended⟩ | same
  · rw [step, begin] at same
    cases same
  · rw [step] at same
    cases same
    exact ended
  · rw [step] at same
    cases same

theorem reading_ended {cursor : Cursor} (ended : cursor.isEnded = true) :
    cursor.reading = ⟨[], true⟩ := by
  exact reading_finish (next_ended (Option.isNone_iff_eq_none.mp ended))

/-- A step depends on the ticks left of the current note only in what is left where the track ends. -/
theorem next_left (cursor : Cursor) (left : Nat) :
    { cursor with left }.next = cursor.next ∨
      ∃ after, cursor.next = .finish after ∧ { cursor with left }.next = .finish { after with left } := by
  cases here : cursor.notes with
  | none =>
    right
    exact ⟨cursor, by simp only [next, here], by simp only [next, here]⟩
  | some notes =>
    cases pausing : cursor.durations.running.testBit pauseBit with
    | true =>
      left
      simp only [next, here, pausing, if_true, begin]
    | false =>
      cases notes with
      | nil =>
        left
        simp only [next, here, pausing, Bool.false_eq_true, if_false]
      | cons byte rest =>
        simp only [next, here, pausing, Bool.false_eq_true, if_false]
        cases NoteCode.ofByte byte with
        | stop => exact .inr ⟨_, rfl, rfl⟩
        | pause ticks => exact .inl rfl
        | timed note pauses =>
          left
          cases cursor.durations.next? <;> rfl

/-- The ticks left of the current note have no part in reading on. -/
theorem reading_left (cursor : Cursor) (left : Nat) :
    { cursor with left }.reading = cursor.reading := by
  rcases next_left cursor left with same | ⟨after, ends, endsToo⟩
  · cases step : cursor.next with
    | event event after => rw [reading_event step, reading_event (same.trans step)]
    | finish after => rw [reading_finish step, reading_finish (same.trans step)]
    | overrun => rw [reading_overrun step, reading_overrun (same.trans step)]
  · rw [reading_finish ends, reading_finish endsToo]

theorem ticks_pos_of_reading (cursor : Cursor) : ∀ event ∈ cursor.reading.events, 0 < event.ticks := by
  induction cursor using reading.induct with
  | case1 cursor event after step ih =>
    intro found member
    rw [reading_event step, List.mem_cons] at member
    rcases member with rfl | member
    · have := (event_of_next step).2.2
      omega
    · exact ih found member
  | case2 cursor after step => simp [reading_finish step]
  | case3 cursor step => simp [reading_overrun step]

end Cursor

end Buzzer
