import Buzzer.Song.NoteCode
import Buzzer.Song.Durations

/-!
The place of one channel in its track. A cursor reads the note array and the duration array side by
side and gives the events of the track one by one.
-/
namespace Buzzer

/-- The bit of the running duration that is set while a note's pause is still to come. -/
def pauseBit : Nat := 15

/-- A running duration of nothing but that bit. -/
def pauseMark : Nat := 1 <<< pauseBit

/-- The place of one channel in its track. Lengths are kept minus one, as they are written: with
`left = 0` the note is in its last tick. -/
structure Cursor where
  /-- The note bytes from here to the end of the song, `none` once the track has ended. -/
  notes : Option (List UInt8)
  durations : DurationReader
  /-- The length, minus one, of the pause that a note can be followed by. -/
  pause : Nat
  note : Note
  left : Nat

namespace Cursor

/-- A track with nothing to play. -/
def ended : Cursor :=
  { notes := none, durations := ⟨[], 0, 0⟩, pause := 0, note := .rest, left := 0 }

def isEnded (cursor : Cursor) : Bool := cursor.notes.isNone

/-- What reading one step of a track comes to. -/
inductive Step where
  | event (event : Event) (next : Cursor)
  | finish (next : Cursor)
  /-- The step needs a byte past the end of the song. -/
  | overrun

/-- The event of the note that has just become current. -/
def begin (cursor : Cursor) : Step := .event ⟨cursor.note, cursor.left + 1⟩ cursor

/-- Reads the next event of the track. A note's pause comes before the note byte after it. -/
def next (cursor : Cursor) : Step :=
  match cursor.notes with
  | none => .finish cursor
  | some notes =>
    if cursor.durations.running.testBit pauseBit then
      begin { cursor with
        durations.running := cursor.durations.running % pauseMark
        note := .rest
        left := cursor.pause }
    else
      match notes with
      | [] => .overrun
      | byte :: rest =>
        match NoteCode.ofByte byte with
        | .stop => .finish { cursor with notes := none, note := .rest }
        | .pause ticks => begin { cursor with notes := some rest, note := .rest, left := ticks - 1 }
        | .timed note pauses =>
          match cursor.durations.next? with
          | none => .overrun
          | some durations =>
            let held := if pauses then durations.running ||| pauseMark else durations.running
            begin { cursor with
              notes := some rest
              durations := { durations with running := held }
              note
              left := durations.running }

/-- A bound on the events still to come: two for every note byte, and one for a pause. -/
def budget (cursor : Cursor) : Nat :=
  match cursor.notes with
  | none => 0
  | some notes => 2 * notes.length + (cursor.durations.running.testBit pauseBit).toNat

theorem testBit_mod_pauseMark (running : Nat) : (running % pauseMark).testBit pauseBit = false := by
  simp [pauseMark, Nat.one_shiftLeft, Nat.testBit_mod_two_pow]

theorem budget_next {cursor after : Cursor} {event : Event} (step : cursor.next = .event event after) :
    after.budget < cursor.budget := by
  unfold next at step
  split at step
  · cases step
  next notes here =>
    split at step
    · next pausing =>
      simp only [begin, Step.event.injEq] at step
      obtain ⟨-, rfl⟩ := step
      simp [budget, here, pausing, testBit_mod_pauseMark]
    next playing =>
      split at step
      · cases step
      next byte rest =>
        split at step
        · cases step
        · simp only [begin, Step.event.injEq] at step
          obtain ⟨-, rfl⟩ := step
          simp only [budget, here, List.length_cons]
          omega
        · split at step
          · cases step
          next durations _ =>
            simp only [begin, Step.event.injEq] at step
            obtain ⟨-, rfl⟩ := step
            simp only [budget, here, List.length_cons]
            refine Nat.lt_of_le_of_lt (Nat.add_le_add_left (Bool.toNat_le _) _) ?_
            omega

/-- The events of a track, up to its end or to the first step that needs a byte past the end of the
song. -/
structure Reading where
  events : List Event
  complete : Bool

/-- Every event from here on, without their timing. -/
def reading (cursor : Cursor) : Reading :=
  match _step : cursor.next with
  | .event event after =>
    let later := after.reading
    { later with events := event :: later.events }
  | .finish _ => ⟨[], true⟩
  | .overrun => ⟨[], false⟩
termination_by cursor.budget
decreasing_by exact budget_next _step

end Cursor

end Buzzer
