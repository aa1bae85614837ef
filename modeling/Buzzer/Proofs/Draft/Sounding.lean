import Buzzer.Proofs.Draft.Normal
import Buzzer.Proofs.Playback.Schedule

/-!
What a track sounds like tick by tick. Writing a track changes how its events are cut, but not the note
of any tick.
-/
namespace Buzzer

namespace Event

/-- The notes of consecutive ticks. -/
def spread (events : List Event) : List Note :=
  events.flatMap fun event => List.replicate event.ticks event.note

/-- The note of a tick, which is a rest once the events are over. -/
def noteAt (events : List Event) (tick : Nat) : Note := (spread events)[tick]?.getD .rest

theorem spread_cons (event : Event) (events : List Event) :
    spread (event :: events) = List.replicate event.ticks event.note ++ spread events :=
  List.flatMap_cons

theorem spread_append (first second : List Event) :
    spread (first ++ second) = spread first ++ spread second :=
  List.flatMap_append

theorem spread_singleton (event : Event) : spread [event] = List.replicate event.ticks event.note :=
  List.append_nil _

theorem length_spread (events : List Event) : (spread events).length = total events := by
  induction events with
  | nil => rfl
  | cons event later ih => rw [spread_cons, List.length_append, List.length_replicate, ih, total]

theorem noteAt_past {events : List Event} {tick : Nat} (past : total events ≤ tick) :
    noteAt events tick = .rest := by
  rw [noteAt, List.getElem?_eq_none (by rwa [length_spread]), Option.getD_none]

/-- The note of a tick is the one of the event that the tick falls into. -/
theorem noteAt_of_onset {events : List Event} {index tick : Nat} {event : Event}
    (here : events[index]? = some event) (begun : onset events index ≤ tick)
    (within : tick < onset events index + event.ticks) : noteAt events tick = event.note := by
  induction events generalizing index tick with
  | nil => cases here
  | cons first later ih =>
    unfold noteAt
    rw [spread_cons]
    cases index with
    | zero =>
      cases here
      have start : onset (event :: later) 0 = 0 := rfl
      rw [start, Nat.zero_add] at within
      rw [List.getElem?_append_left (by rw [List.length_replicate]; exact within),
        List.getElem?_replicate_of_lt within, Option.getD_some]
    | succ index =>
      have shift : onset (first :: later) (index + 1) = first.ticks + onset later index := by
        simp [onset, total]
      have past : first.ticks ≤ tick := by omega
      rw [List.getElem?_append_right (by rw [List.length_replicate]; exact past), List.length_replicate]
      exact ih here (by omega) (by omega)

theorem spread_rests (lengths : List Nat) :
    spread (rests lengths) = List.replicate (total (rests lengths)) .rest := by
  induction lengths with
  | nil => rfl
  | cons length lengths ih =>
    have split : spread (rests (length :: lengths)) =
        List.replicate length .rest ++ spread (rests lengths) := spread_cons _ _
    have sum : total (rests (length :: lengths)) = length + total (rests lengths) := rfl
    rw [split, ih, sum, List.replicate_append_replicate]

theorem spread_joinFrom (events : List Event) (resting : Nat) :
    spread (joinFrom resting events) = List.replicate resting .rest ++ spread events := by
  induction events generalizing resting with
  | nil =>
    rw [joinFrom, spread_rests, total_cut]
    exact (List.append_nil _).symm
  | cons first later ih =>
    obtain ⟨note, ticks⟩ := first
    rw [spread_cons]
    cases note with
    | rest =>
      rw [joinFrom, ih, ← List.append_assoc, List.replicate_append_replicate]
    | tone pitch =>
      rw [joinFrom]
      by_cases silent : ticks = 0
      · rw [if_pos silent, ih, silent, List.replicate_zero, List.nil_append]
      · rw [if_neg silent, spread_append, spread_cons, ih, spread_rests, total_cut]
        rfl

theorem spread_pieces (events : List Event) : spread (events.flatMap pieces) = spread events := by
  induction events with
  | nil => rfl
  | cons first later ih =>
    obtain ⟨note, ticks⟩ := first
    rw [List.flatMap_cons, spread_append, ih, spread_cons]
    cases note with
    | rest => rw [pieces, spread_rests, total_cut]
    | tone pitch => rw [pieces, spread_singleton]

theorem spread_normalForm (events : List Event) : spread (normalForm events) = spread events := by
  rw [normalForm, spread_pieces, spread_joinFrom]
  rfl

end Event

end Buzzer
