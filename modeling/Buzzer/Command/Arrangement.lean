import Buzzer.Command.Basic

/-!
The command that arranges a MIDI file as a song, written as it is or as an array for a C program.
-/
namespace Buzzer

namespace Command

/-- The lists of `size` elements, and of what is left at the end, that make up a list. -/
def chunks {α : Type} (size : Nat) : List α → List (List α)
  | [] => []
  | value :: rest => (value :: rest.take (size - 1)) :: chunks size (rest.drop (size - 1))
termination_by values => values.length
decreasing_by
  simp only [List.length_drop, List.length_cons]
  omega

/-- A byte as it stands in the array. -/
def byteItem (byte : UInt8) : String :=
  let value := byte.toNat
  "0x".push (Nat.digitChar (value / 16)) |>.push (Nat.digitChar (value % 16)) |>.push ','

/-- A line of the array. -/
def arrayLine (bytes : List UInt8) : String := "    " ++ " ".intercalate (bytes.map byteItem) ++ "\n"

/-- The bytes as an array of a name, twelve on a line. -/
def arrayText (name : String) (bytes : List UInt8) : String :=
  "#include \"music.h\"\n\nstatic _FLASH uint8_t " ++ name ++ "[] = \x7b\n" ++
    "".intercalate ((chunks 12 bytes).map arrayLine) ++ "\x7d;\n"

/-- The song as it is written to a path: an array, named after the file, if that is a header. -/
def songFile (path : String) (bytes : List UInt8) : List UInt8 :=
  if extension? path = some "h" then
    (arrayText ((stem? path).getD "song") bytes).toUTF8.toList
  else bytes

def arrangementUsage : String :=
  "convert <midi-file> <song-file> [atmega3208|atmega328p] [strategy]"

/-- The strategy of a name, and the one that tries them all if none is named. -/
def strategy (name : Option String) : Except CommandError Midi.Strategy :=
  match name with
  | none => .ok .auto
  | some name =>
    match Midi.Strategy.ofName? name with
    | some strategy => .ok strategy
    | none => .error (.unknownStrategy name)

/-- Arranges a MIDI file for a target. -/
def arrange [FloatLibrary] [Midi.Reader] (arguments : List String) (files : Files) : Work String := do
  let source ← argument arguments 0 "midi-file" arrangementUsage
  let path ← argument arguments 1 "song-file" arrangementUsage
  let strategy ← strategy arguments[3]?
  let target ← target arguments[2]?
  let arranger := { Midi.Arranger.ofTarget target with strategy }
  let draft ← (arranger.arrange (← read files source)).mapError CommandError.arrange
  let bytes ← draft.encode.mapError CommandError.song
  let song ← load bytes
  create files path
  write path (songFile path bytes)
  return s!"converted {song.channels.length} channels, {song.durationTicks} ticks, {bpmText song} BPM, {bytes.length} bytes\n"

end Command

end Buzzer
