/-!
The duration array of a track, which holds every duration minus one. Equal durations in a row are
written once, followed by marks that repeat them.
-/
namespace Buzzer

/-- The first byte that repeats the duration before it. -/
def repeatBase : Nat := 0x80

/-- The first byte that starts a duration of two bytes. -/
def longBase : Nat := 0xc0

/-- The longest duration of an event, in ticks. -/
def maxDuration : Nat := 0x4000

/-- A duration array being read: the bytes left, the running duration minus one, and how many more
notes reuse it. -/
structure DurationReader where
  bytes : List UInt8
  running : Nat
  repeats : Nat

/-- Moves on to the duration of the next note, unless the bytes run out. -/
def DurationReader.next? (reader : DurationReader) : Option DurationReader :=
  if 0 < reader.repeats then some { reader with repeats := reader.repeats - 1 }
  else
    match reader.bytes with
    | [] => none
    | first :: rest =>
      let value := first.toNat
      if longBase ≤ value then
        match rest with
        | [] => none
        | low :: rest =>
          some { reader with bytes := rest, running := value % 0x40 * 0x100 + low.toNat }
      else if repeatBase ≤ value then
        some { reader with bytes := rest, repeats := value - repeatBase }
      else some { reader with bytes := rest, running := value }

namespace Durations

/-- The most notes that one mark can give the running duration to. -/
def maxRun : Nat := 0x40

/-- The mark that gives the running duration to `run` more notes. -/
def repeatMark : Nat → List UInt8
  | 0 => []
  | run + 1 => [UInt8.ofNat (repeatBase + run)]

/-- A duration, minus one, in one byte if it fits and in two otherwise. -/
def entry (value : Nat) : List UInt8 :=
  if value < repeatBase then [UInt8.ofNat value]
  else [UInt8.ofNat (longBase + value / 0x100), UInt8.ofNat value]

/-- Writes the values after `run` notes that reuse the duration `running` and are not yet marked. -/
def encodeFrom (running run : Nat) : List Nat → List UInt8
  | [] => repeatMark run
  | value :: rest =>
    if value = running then
      if run + 1 = maxRun then repeatMark maxRun ++ encodeFrom running 0 rest
      else encodeFrom running (run + 1) rest
    else repeatMark run ++ entry value ++ encodeFrom value 0 rest

/-- The duration array of notes with these durations minus one. A reader starts with a running
duration of one tick. -/
def encode (values : List Nat) : List UInt8 := encodeFrom 0 0 values

end Durations

end Buzzer
