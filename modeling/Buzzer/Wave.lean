/-!
Sound files of one channel with samples of eight bits, as a library writes them.
-/
namespace Buzzer

namespace Wave

/-- What a sound file holds. -/
structure Sound where
  /-- In samples per second. -/
  sampleRate : Nat
  samples : List UInt8

/-- A library that writes sound files. -/
class Writer where
  /-- A file that is being written. -/
  State : Type
  /-- Starts a file with so many channels, at a sample rate, and with so many bits for a sample, or tells
  why that cannot be done. -/
  start : (channels sampleRate bits : Nat) → Except String State
  /-- Adds a sample of eight bits to a file. -/
  add : State → UInt8 → Except String State
  /-- What is in a file so far. -/
  bytes : State → List UInt8

/-- What is known of a library, for files of one channel with samples of eight bits, where `Holds` tells what
sound a file that is being written holds, and `read?` is how such files are read. Every such file can be
started and added to, and what is read from it is what has been added. -/
structure Writer.Documented [Writer] (Holds : Writer.State → Sound → Prop)
    (read? : List UInt8 → Option Sound) : Prop where
  start : ∀ sampleRate < 0x100000000, ∃ state, Writer.start 1 sampleRate 8 = .ok state ∧
    Holds state ⟨sampleRate, []⟩
  add : ∀ state sound sample, Holds state sound → ∃ next, Writer.add state sample = .ok next ∧
    Holds next { sound with samples := sound.samples ++ [sample] }
  bytes : ∀ state sound, Holds state sound → read? (Writer.bytes state) = some sound

end Wave

end Buzzer
