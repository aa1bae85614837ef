import Buzzer.Wave

/-!
Sound files in bytes: a header of 44 bytes, then the samples.
-/
namespace Buzzer

namespace Riff

/-- A number of four bytes, the lowest first. -/
def number (value : Nat) : List UInt8 :=
  [UInt8.ofNat value, UInt8.ofNat (value / 0x100), UInt8.ofNat (value / 0x10000),
    UInt8.ofNat (value / 0x1000000)]

def tag (name : String) : List UInt8 := name.toUTF8.toList

/-- The header of a file with a number of samples, each of one byte. -/
def header (sampleRate samples : Nat) : List UInt8 :=
  tag "RIFF" ++ number (36 + samples) ++ tag "WAVE" ++
    tag "fmt " ++ number 16 ++ [1, 0, 1, 0] ++ number sampleRate ++ number sampleRate ++
    [1, 0, 8, 0] ++ tag "data" ++ number samples

def encode (sound : Wave.Sound) : List UInt8 :=
  header sound.sampleRate sound.samples.length ++ sound.samples

/-- A file that is being written. -/
structure File where
  sampleRate : Nat
  /-- The samples so far, the last one first. -/
  latest : List UInt8

def File.sound (file : File) : Wave.Sound := ⟨file.sampleRate, file.latest.reverse⟩

instance writer : Wave.Writer where
  State := File
  start := fun channels sampleRate bits =>
    if channels = 1 ∧ bits = 8 then .ok ⟨sampleRate, []⟩ else .error "Unsupported format"
  add := fun file sample => .ok { file with latest := sample :: file.latest }
  bytes := fun file => encode file.sound

end Riff

end Buzzer
