import Buzzer.Playback

/-!
Playing a song through, once or over and over. A pass resets the listener, then tells it the changes
of every tick and waits for the tick to go by, until a tick finds every track ended.
-/
namespace Buzzer

/-- How a pass or a performance came to its end. -/
inductive Ending where
  | finished
  /-- It was stopped from outside. -/
  | stopped
  /-- It needed a byte past the end of the song. -/
  | overrun
  deriving DecidableEq

/-- The changes of every tick of a pass. -/
structure Pass where
  ticks : List (List Change)
  ending : Ending

namespace Playback

/-- Plays on until every track has ended, but stops after `limit` ticks. -/
def pass (playback : Playback) : (limit : Nat) → Pass
  | 0 => ⟨[], .stopped⟩
  | limit + 1 =>
    match playback.tick with
    | none => ⟨[], .overrun⟩
    | some ⟨next, changes, played⟩ =>
      if played then
        let later := next.pass limit
        { later with ticks := changes :: later.ticks }
      else ⟨[], .finished⟩

/-- Plays on until every track has ended. One tick more than are left tells that they have. -/
def wholePass (playback : Playback) : Pass := playback.pass (playback.ticksLeft + 1)

end Playback

/-- One step of a performance, as the listener and the clock see it. -/
inductive Cue where
  | setup
  | reset
  | change (change : Change)
  | wait (tempo : UInt8)
  deriving DecidableEq

structure Performance where
  cues : List Cue
  ending : Ending

def Pass.cues (tempo : UInt8) (pass : Pass) : List Cue :=
  .reset :: pass.ticks.flatMap fun changes => changes.map .change ++ [.wait tempo]

namespace Playback

/-- Plays pass after pass until `waits` ticks have gone by. A song without a tick is not started
over. -/
def repeated (playback : Playback) (waits : Nat) : Performance :=
  let pass := playback.pass waits
  let played := pass.ticks.length
  if _more : pass.ending = .finished ∧ 0 < played ∧ 0 < waits then
    let later := playback.repeated (waits - played)
    { later with cues := pass.cues playback.tempo ++ later.cues }
  else ⟨pass.cues playback.tempo, pass.ending⟩
termination_by waits
decreasing_by exact Nat.sub_lt _more.2.2 _more.2.1

/-- Sets the listener up and plays, once or over and over. A performance that is stopped is stopped
during the wait of that number, counted from 1. -/
def perform (playback : Playback) (looping : Bool) (stopAfter : Option Nat) : Performance :=
  let once (pass : Pass) : Performance := ⟨pass.cues playback.tempo, pass.ending⟩
  let performance :=
    match stopAfter with
    | none | some 0 => once playback.wholePass
    | some waits => if looping then playback.repeated waits else once (playback.pass waits)
  { performance with cues := .setup :: performance.cues }

end Playback

end Buzzer
