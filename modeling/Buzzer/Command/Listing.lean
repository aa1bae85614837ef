import Buzzer.Command.Basic

/-!
The command that lists the events of a song.
-/
namespace Buzzer

namespace Command

/-- A text filled up with blanks in front of it. -/
def alignRight (width : Nat) (text : String) : String :=
  "".pushn ' ' (width - text.length) ++ text

/-- A text filled up with blanks behind it. -/
def alignLeft (width : Nat) (text : String) : String :=
  text.pushn ' ' (width - text.length)

/-- One line for every event, with the tick at which it starts. -/
def eventLines (tick : Nat) : List Event → List String
  | [] => []
  | event :: later =>
    s!"  {alignRight 6 (toString tick)}  {alignLeft 4 event.note.name} {event.ticks}" ::
      eventLines (tick + event.ticks) later

def songLines (song : Song) : List String :=
  let tempo := song.tempo?.getD 0
  s!"tempo {tempo} ({bpmText song} BPM), {song.durationTicks} ticks" ::
    song.channels.flatMap fun channel =>
      s!"channel {channel}" :: eventLines 0 (song.reading channel).events

/-- Lists the song in a file. -/
def list (arguments : List String) (files : Files) : Work String := do
  let path ← argument arguments 0 "song-file" "dump <song-file>"
  let song ← load (← read files path)
  return "".intercalate ((songLines song).map (· ++ "\n"))

end Command

end Buzzer
