/-!
Notes and events: what one channel plays, and for how many ticks. A pitch counts semitones above C2.
-/
namespace Buzzer

/-- The number of pitches a song can hold, from C2, pitch 0, to B8, pitch 83. -/
def playablePitches : Nat := 84

/-- What a channel plays during one event. -/
inductive Note where
  | tone (pitch : Nat)
  | rest
  deriving DecidableEq

namespace Note

def pitch? : Note → Option Nat
  | tone pitch => some pitch
  | rest => none

def isRest : Note → Bool
  | tone _ => false
  | rest => true

private def letters : Array String :=
  #["C", "C#", "D", "D#", "E", "F", "F#", "G", "G#", "A", "A#", "B"]

/-- The scientific name of a tone, such as `C#4`, and a dash for a rest. -/
def name : Note → String
  | tone pitch => letters.getD (pitch % 12) "" ++ toString (pitch / 12 + 2)
  | rest => "-"

end Note

/-- A note and the number of ticks it lasts. -/
structure Event where
  note : Note
  ticks : Nat
  deriving DecidableEq

namespace Event

/-- The length of consecutive events. -/
def total : List Event → Nat
  | [] => 0
  | event :: later => event.ticks + total later

theorem total_append (first second : List Event) :
    total (first ++ second) = total first + total second := by
  induction first with
  | nil => exact (Nat.zero_add _).symm
  | cons event later ih => rw [List.cons_append, total, total, ih, Nat.add_assoc]

end Event

end Buzzer
