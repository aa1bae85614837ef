import Buzzer.Song.Cursor
import Buzzer.Tempo

/-!
A song is a tempo byte followed by one block per used channel. A block starts with a header of six
bytes: the channel, the length of the block, the offset of its duration array and the length of its
pause, then hold the note array and the duration array.
-/
namespace Buzzer

/-- The channel byte that ends a song. -/
def songEnd : UInt8 := 0xff

def headerLength : Nat := 6

/-- A word written with its low byte first. -/
def word (low high : UInt8) : Nat := low.toNat + 0x100 * high.toNat

/-- The header of a track block. -/
structure Header where
  channel : UInt8
  length : Nat
  durationOffset : Nat
  /-- The length of the block's pause, minus one. -/
  pause : Nat

def Header.read? : List UInt8 → Option Header
  | channel :: lengthLow :: lengthHigh :: offsetLow :: offsetHigh :: pause :: _ =>
    some ⟨channel, word lengthLow lengthHigh, word offsetLow offsetHigh, pause.toNat⟩
  | _ => none

/-- A track block in a song. -/
structure Block where
  channel : UInt8
  /-- Where the block starts in the song. -/
  offset : Nat
  /-- The bytes from the block's header to the end of the song. -/
  bytes : List UInt8

/-- A cursor at the start of the block's track, unless the song ends within the header. -/
def Block.cursor? (block : Block) : Option Cursor :=
  (Header.read? block.bytes).map fun header =>
    { notes := some (block.bytes.drop headerLength)
      durations := ⟨block.bytes.drop header.durationOffset, 0, 0⟩
      pause := header.pause
      note := .rest
      left := 0 }

/-- A cursor at the start of a channel's track among the blocks of a song. It has ended if the channel
has no block. -/
def Block.seek? (blocks : List Block) (channel : UInt8) : Option Cursor :=
  match blocks.find? (·.channel = channel) with
  | none => some .ended
  | some block => block.cursor?

/-- The events of a channel's track among the blocks of a song. -/
def Block.readingOf (blocks : List Block) (channel : UInt8) : Cursor.Reading :=
  match seek? blocks channel with
  | none => ⟨[], false⟩
  | some cursor => cursor.reading

/-- The bytes of a song, which need not have been checked. -/
structure Song where
  bytes : List UInt8

namespace Song

/-- The blocks from `offset` on, where the song goes on with `rest`. The walk only trusts lengths
above zero, and ends where there is none. -/
def blocksFrom (offset : Nat) (rest : List UInt8) : List Block :=
  match _here : rest with
  | channel :: low :: high :: _ =>
    if channel = songEnd then []
    else
      let length := word low high
      if _some : length = 0 then []
      else ⟨channel, offset, rest⟩ :: blocksFrom (offset + length) (rest.drop length)
  | _ => []
termination_by rest.length
decreasing_by
  simp only [_here, List.length_drop, List.length_cons]
  omega

def blocks (song : Song) : List Block := blocksFrom 1 (song.bytes.drop 1)

def tempo? (song : Song) : Option UInt8 := song.bytes.head?

/-- The channels that have a block, in the order of the blocks. -/
def channels (song : Song) : List UInt8 := song.blocks.map Block.channel

/-- The events of a channel. -/
def reading (song : Song) (channel : UInt8) : Cursor.Reading := Block.readingOf song.blocks channel

/-- The length of the longest track, in ticks. -/
def durationTicks (song : Song) : Nat :=
  let blocks := song.blocks
  (blocks.map fun block => Event.total (Block.readingOf blocks block.channel).events).foldl max 0

end Song

end Buzzer
