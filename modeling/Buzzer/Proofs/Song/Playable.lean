import Buzzer.Proofs.Song.Format

/-!
What can be read from a track. Whatever the bytes of a song are, and whether they have been checked or
not, every event has a pitch in range and takes at least one tick and at most the longest duration.
-/
namespace Buzzer

/-- Whether an event is one that a track can hold. -/
structure Event.Playable (event : Event) : Prop where
  inRange : ∀ pitch, event.note = .tone pitch → pitch < playablePitches
  lasting : 0 < event.ticks
  most : event.ticks ≤ maxDuration

theorem Event.playable_rest {ticks : Nat} (small : ticks < maxDuration) :
    Playable ⟨.rest, ticks + 1⟩ :=
  ⟨fun pitch impossible => (by cases impossible), Nat.succ_pos _, small⟩

theorem NoteCode.pitch_of_ofByte {byte : UInt8} {pitch : Nat} {pauses : Bool}
    (code : ofByte byte = .timed (.tone pitch) pauses) : pitch < playablePitches := by
  rw [ofByte_eq] at code
  split at code
  · cases code
  · split at code
    · cases code
    next notInline =>
      rw [timed.injEq, Format.noteOf] at code
      have note := code.1
      split at note
      · cases note
      next sounds =>
        split at note
        · cases note
          simp only [playablePitches]
          omega
        · cases note
          simp only [playablePitches]
          omega

theorem NoteCode.ticks_of_ofByte {byte : UInt8} {ticks : Nat} (code : ofByte byte = .pause ticks) :
    ticks - 1 < maxDuration := by
  have small := byte.toNat_lt
  rw [ofByte_eq] at code
  split at code
  · cases code
  · split at code
    · cases code
      simp only [maxDuration]
      omega
    · cases code

namespace Cursor

/-- Whether the running duration of a cursor is one that can be written, apart from the mark of a pause
that is still to come, and the pause is short enough. -/
structure Bounded (cursor : Cursor) : Prop where
  running : ∃ value < maxDuration, cursor.durations.running = value ∨
    cursor.durations.running = value ||| pauseMark
  pause : cursor.pause < maxDuration

section Steps

variable {cursor after : Cursor} {event : Event}

theorem Bounded.running_lt (bounded : cursor.Bounded)
    (playing : cursor.durations.running.testBit pauseBit = false) :
    cursor.durations.running < maxDuration := by
  obtain ⟨value, small, plain | marked⟩ := bounded.running
  · rw [plain]
    exact small
  · rw [marked, testBit_or_pauseMark] at playing
    cases playing

theorem Bounded.running_mod_lt (bounded : cursor.Bounded) :
    cursor.durations.running % pauseMark < maxDuration := by
  obtain ⟨value, small, plain | marked⟩ := bounded.running
  · rw [plain, Nat.mod_eq_of_lt (lt_pauseMark small)]
    exact small
  · rw [marked, or_pauseMark_mod (lt_pauseMark small)]
    exact small

/-- A step of a track comes to an event that a track can hold. -/
theorem playable_next (bounded : cursor.Bounded) (step : cursor.next = .event event after) :
    event.Playable ∧ after.Bounded := by
  have takes := cursor.takes_next
  rw [step] at takes
  cases takes with
  | pausing _ _ =>
    exact ⟨Event.playable_rest bounded.pause, ⟨_, bounded.running_mod_lt, .inl rfl⟩, bounded.pause⟩
  | pause _ _ code =>
    exact ⟨Event.playable_rest (NoteCode.ticks_of_ofByte code), bounded.running, bounded.pause⟩
  | @timed _ _ note pauses _ _ playing code found =>
    have small := DurationReader.running_next (bounded.running_lt playing) found
    refine ⟨⟨?_, Nat.succ_pos _, small⟩, ⟨_, small, ?_⟩, bounded.pause⟩
    · intro pitch same
      exact NoteCode.pitch_of_ofByte (code.trans (congrArg (NoteCode.timed · pauses) same))
    · cases pauses with
      | true => exact .inr rfl
      | false => exact .inl rfl

end Steps

theorem playable_of_reading {cursor : Cursor} (bounded : cursor.Bounded) :
    ∀ event ∈ cursor.reading.events, event.Playable := by
  induction cursor using reading.induct with
  | case1 cursor event after step ih =>
    obtain ⟨playable, boundedAfter⟩ := playable_next bounded step
    rw [reading_event step, List.forall_mem_cons]
    exact ⟨playable, ih boundedAfter⟩
  | case2 cursor after step => simp [reading_finish step]
  | case3 cursor step => simp [reading_overrun step]

theorem bounded_of_cursor? {block : Block} {cursor : Cursor} (loads : block.cursor? = some cursor) :
    cursor.Bounded := by
  obtain ⟨header, read, rfl⟩ := Option.map_eq_some_iff.mp loads
  obtain ⟨_, _, _, _, pause, _, -, same⟩ := Header.read?_eq_some read
  have small := pause.toNat_lt
  refine ⟨⟨0, by decide, .inl rfl⟩, ?_⟩
  rw [same]
  simp only [maxDuration]
  omega

end Cursor

theorem Song.playable_of_reading (song : Song) (channel : UInt8) :
    ∀ event ∈ (song.reading channel).events, event.Playable := by
  unfold reading Block.readingOf Block.seek?
  cases song.blocks.find? (·.channel = channel) with
  | none =>
    have ends : Cursor.ended.reading = ⟨[], true⟩ := Cursor.reading_ended rfl
    simp [ends]
  | some block =>
    cases loads : block.cursor? with
    | none => simp [loads]
    | some cursor =>
      simp only [loads]
      exact Cursor.playable_of_reading (Cursor.bounded_of_cursor? loads)

end Buzzer
