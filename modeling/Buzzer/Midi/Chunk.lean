import Buzzer.Midi.Track

/-!
MIDI files in bytes: chunks, of which one is the header and the others are tracks. A file may be wrapped
in chunks of another kind.
-/
namespace Buzzer

namespace Midi

/-- A chunk: four bytes that name its kind, and its data. -/
structure Chunk where
  kind : List UInt8
  data : List UInt8

def headerKind : List UInt8 := "MThd".toUTF8.toList

def trackKind : List UInt8 := "MTrk".toUTF8.toList

/-- Reads a chunk with its length in the given byte order. A chunk that is cut off has the data that
is left. -/
def chunk? (order : List UInt8 → Nat) : List UInt8 → Option (Chunk × List UInt8)
  | k₀ :: k₁ :: k₂ :: k₃ :: l₀ :: l₁ :: l₂ :: l₃ :: data =>
    let length := order [l₀, l₁, l₂, l₃]
    some (⟨[k₀, k₁, k₂, k₃], data.take length⟩, data.drop length)
  | _ => none

theorem chunk?_length_lt {order : List UInt8 → Nat} {bytes rest : List UInt8} {chunk : Chunk}
    (read : chunk? order bytes = some (chunk, rest)) : rest.length < bytes.length := by
  unfold chunk? at read
  split at read
  · simp only [Option.some.injEq, Prod.mk.injEq] at read
    obtain ⟨-, rfl⟩ := read
    simp only [List.length_drop, List.length_cons]
    omega
  · cases read

/-- Reads the timing out of the data of a header. -/
def timing? (header : List UInt8) : Option Timing :=
  if header.length < 6 ∨ 2 < bigEndian (header.take 2) then none
  else
    let timing := bigEndian ((header.drop 4).take 2)
    if timing < 0x8000 then some (.ticksPerBeat timing)
    else if [24, 25, 29, 30].contains (0x100 - timing / 0x100) then some .timecode
    else none

/-- Finds the header, which has to come before all tracks. -/
def header? (bytes : List UInt8) : Option (Timing × List UInt8) :=
  match _read : chunk? bigEndian bytes with
  | none => none
  | some (chunk, rest) =>
    if chunk.kind = headerKind then (timing? chunk.data).map fun timing => (timing, rest)
    else if chunk.kind = trackKind then none
    else header? rest
termination_by bytes.length
decreasing_by exact chunk?_length_lt _read

/-- The data of the tracks, up to the first chunk that cannot be read. -/
def trackChunks (bytes : List UInt8) : List (List UInt8) :=
  match _read : chunk? bigEndian bytes with
  | none => []
  | some (chunk, rest) =>
    if chunk.kind = headerKind ∧ (timing? chunk.data).isNone then []
    else if chunk.kind = trackKind then chunk.data :: trackChunks rest
    else trackChunks rest
termination_by bytes.length
decreasing_by all_goals exact chunk?_length_lt _read

/-- Finds the file among the chunks of its wrapping, where data of odd length is padded. -/
def wrappedData? (bytes : List UInt8) : Option (List UInt8) :=
  match _read : chunk? littleEndian bytes with
  | none => none
  | some (chunk, rest) =>
    if chunk.kind = "data".toUTF8.toList then some chunk.data
    else wrappedData? (rest.drop (chunk.data.length % 2))
termination_by bytes.length
decreasing_by
  have := chunk?_length_lt _read
  simp only [List.length_drop]
  omega

/-- The file itself, unwrapped if need be. -/
def unwrapped? (bytes : List UInt8) : Option (List UInt8) :=
  if bytes.take 4 = headerKind then some bytes
  else if bytes.take 4 = "RIFF".toUTF8.toList then do
    let (chunk, _) ← chunk? littleEndian bytes
    if chunk.data.take 4 = "RMID".toUTF8.toList then wrappedData? (chunk.data.drop 4) else none
  else none

/-- Reads a file, unless it is no MIDI file or its header cannot be read. -/
def File.ofBytes? (bytes : List UInt8) : Option File := do
  let (timing, rest) ← header? (← unwrapped? bytes)
  return ⟨timing, (trackChunks rest).map trackEvents⟩

instance reader : Reader := ⟨File.ofBytes?⟩

end Midi

end Buzzer
