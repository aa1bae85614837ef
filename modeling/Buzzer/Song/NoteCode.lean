import Buzzer.Note

/-!
The bytes of a note array. Every byte stands for one code, and `toByte` writes a code back.
-/
namespace Buzzer

/-- One byte of a note array. -/
inductive NoteCode where
  /-- A note whose length comes from the duration array, with or without the block's pause after it. -/
  | timed (note : Note) (pauses : Bool)
  /-- A rest that holds its own length. -/
  | pause (ticks : Nat)
  /-- The end of the track. -/
  | stop
  deriving DecidableEq

namespace NoteCode

/-- The place of a rest among the timed notes, after the last pitch. -/
def restIndex : Nat := 0x54

/-- The first byte of the timed notes that are followed by the block's pause. -/
def pausesBase : Nat := 0x55

/-- The first byte of the rests that hold their own length. -/
def pauseBase : Nat := 0xaa

/-- The byte that ends a note array. -/
def stopByte : Nat := 0xff

/-- The longest rest that holds its own length. -/
def maxPause : Nat := stopByte - pauseBase

def noteAt (index : Nat) : Note :=
  if index = restIndex then .rest else .tone index

def index : Note → Nat
  | .tone pitch => pitch
  | .rest => restIndex

def ofByte (byte : UInt8) : NoteCode :=
  let value := byte.toNat
  if value = stopByte then stop
  else if pauseBase ≤ value then pause (value - pauseBase + 1)
  else if pausesBase ≤ value then timed (noteAt (value - pausesBase)) true
  else timed (noteAt value) false

def toByte : NoteCode → UInt8
  | timed note false => UInt8.ofNat (index note)
  | timed note true => UInt8.ofNat (pausesBase + index note)
  | pause ticks => UInt8.ofNat (pauseBase + (ticks - 1))
  | stop => UInt8.ofNat stopByte

/-- Reading a byte loses nothing. -/
theorem toByte_ofByte (byte : UInt8) : (ofByte byte).toByte = byte := by
  have small := byte.toNat_lt
  apply UInt8.toNat_inj.mp
  unfold ofByte noteAt
  simp only [stopByte, pauseBase, pausesBase, restIndex]
  by_cases stopped : byte.toNat = 255
  · simp [stopped, toByte, stopByte]
  by_cases inline : 170 ≤ byte.toNat
  · simp [stopped, inline, toByte, pauseBase]
  by_cases pauses : 85 ≤ byte.toNat
  · by_cases silent : byte.toNat - 85 = 84
    · simp [stopped, inline, pauses, silent, toByte, pausesBase, index, restIndex]
      omega
    · simp [stopped, inline, pauses, silent, toByte, pausesBase, index]
  · by_cases silent : byte.toNat = 84
    · simp [silent, toByte, index, restIndex]
    · simp [stopped, inline, pauses, silent, toByte, index]

end NoteCode

end Buzzer
