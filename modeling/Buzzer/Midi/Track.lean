import Buzzer.Midi.File
import Buzzer.Midi.Quantity

/-!
The events of a MIDI track. Reading stops at the first event that cannot be read.
-/
namespace Buzzer

namespace Midi

/-- A message that has been read, with the status that the next one may leave out. -/
structure Received where
  message : Message
  status : Option UInt8
  rest : List UInt8

/-- Reads the data of a channel message. Data bytes have no high bit. -/
def channelMessage? (status : UInt8) (bytes : List UInt8) : Option Received :=
  let kind := status.toNat / 0x10
  match bytes with
  | [] => none
  | first :: rest =>
    if 0x80 ≤ first then none
    else if kind = 0xc ∨ kind = 0xd then some ⟨.other, some status, rest⟩
    else
      match rest with
      | [] => none
      | second :: rest =>
        if 0x80 ≤ second then none
        else
          let message :=
            if kind = 0x9 then .noteOn first.toNat second.toNat
            else if kind = 0x8 then .noteOff first.toNat
            else .other
          some ⟨message, some status, rest⟩

/-- Whether a time code is one that exists. -/
def isTimecode : List UInt8 → Bool
  | hours :: minutes :: seconds :: frame :: subframe :: _ =>
    let frames := [24, 25, 29, 30].getD (hours.toNat / 0x20 % 4) 0
    hours.toNat % 0x20 < 24 && minutes < 60 && seconds < 60 && frame.toNat < frames && subframe < 100
  | _ => true

/-- The message of a type and its data. Most types say nothing about a song, but some have data that
cannot be read. -/
def metaMessage? (kind : UInt8) (data : List UInt8) : Option Message :=
  match kind with
  | 0x51 => some (if 3 ≤ data.length then .tempo (bigEndian (data.take 3)) else .other)
  | 0x54 => if isTimecode data then some .other else none
  | 0x59 => if 2 ≤ data.length then some .other else none
  | _ => some .other

/-- Reads the message of a status byte. -/
def statusMessage? (status : UInt8) (bytes : List UInt8) : Option Received :=
  if status < 0xf0 then channelMessage? status bytes
  else if status = 0xf0 ∨ status = 0xf7 then some ⟨.other, none, (lengthAndData bytes).2⟩
  else if status = 0xff then
    match bytes with
    | [] => none
    | kind :: rest =>
      let (data, rest) := lengthAndData rest
      (metaMessage? kind data).map fun message => ⟨message, none, rest⟩
  else none

/-- Reads a message. One that starts with a data byte has the status of the channel message before
it. -/
def message? (status : Option UInt8) (bytes : List UInt8) : Option Received :=
  match bytes with
  | [] => none
  | first :: rest =>
    if first < 0x80 then
      match status with
      | none => none
      | some status => channelMessage? status bytes
    else statusMessage? first rest

theorem channelMessage?_length_lt {status : UInt8} {bytes : List UInt8} {received : Received}
    (read : channelMessage? status bytes = some received) :
    received.rest.length < bytes.length := by
  unfold channelMessage? at read
  dsimp only at read
  split at read
  · cases read
  · repeat' split at read
    all_goals cases read
    all_goals simp only [List.length_cons]
    all_goals omega

theorem statusMessage?_length_le {status : UInt8} {bytes : List UInt8} {received : Received}
    (read : statusMessage? status bytes = some received) :
    received.rest.length ≤ bytes.length := by
  unfold statusMessage? at read
  split at read
  · exact Nat.le_of_lt (channelMessage?_length_lt read)
  · split at read
    · cases read
      exact lengthAndData_length_le bytes
    · split at read
      · split at read
        · cases read
        next kind rest =>
          simp only [Option.map_eq_some_iff] at read
          obtain ⟨message, -, rfl⟩ := read
          exact Nat.le_succ_of_le (lengthAndData_length_le rest)
      · cases read

theorem message?_length_lt {status : Option UInt8} {bytes : List UInt8} {received : Received}
    (read : message? status bytes = some received) : received.rest.length < bytes.length := by
  unfold message? at read
  split at read
  · cases read
  · split at read
    · split at read
      · cases read
      · exact channelMessage?_length_lt read
    · exact Nat.lt_succ_of_le (statusMessage?_length_le read)

/-- Reads the events of a track, where `status` is what a message may leave out. -/
def trackEventsFrom (status : Option UInt8) (bytes : List UInt8) : List TrackEvent :=
  let time := quantity bytes
  match _read : message? status time.2 with
  | none => []
  | some received => ⟨time.1, received.message⟩ :: trackEventsFrom received.status received.rest
termination_by bytes.length
decreasing_by exact Nat.lt_of_lt_of_le (message?_length_lt _read) (quantity_length_le bytes)

def trackEvents (bytes : List UInt8) : List TrackEvent := trackEventsFrom none bytes

end Midi

end Buzzer
