import Buzzer.Midi.Quantity
import Buzzer.Riff

/-!
Sound files, read back. What is written is a header that fits the samples, and then the samples themselves.
-/
namespace Buzzer

namespace Riff

/-- Reads the sound in a file, if the header is the one for its samples. -/
def sound? (bytes : List UInt8) : Option Wave.Sound :=
  let sampleRate := Midi.littleEndian ((bytes.drop 24).take 4)
  let samples := bytes.drop 44
  if bytes.take 44 = header sampleRate samples.length then some ⟨sampleRate, samples⟩ else none

theorem littleEndian_number {value : Nat} (fits : value < 0x100000000) :
    Midi.littleEndian (number value) = value := by
  simp only [number, Midi.littleEndian, Midi.bigEndian, List.reverse_cons, List.reverse_nil, List.nil_append,
    List.cons_append, List.foldl_cons, List.foldl_nil, UInt8.toNat_ofNat']
  omega

section Header

variable (sampleRate samples : Nat)

/-- The header as a list of bytes. -/
theorem header_eq : header sampleRate samples =
    [0x52, 0x49, 0x46, 0x46] ++ number (36 + samples) ++ [0x57, 0x41, 0x56, 0x45] ++ [0x66, 0x6d, 0x74, 0x20] ++
      number 16 ++ [1, 0, 1, 0] ++ number sampleRate ++ number sampleRate ++ [1, 0, 8, 0] ++
      [0x64, 0x61, 0x74, 0x61] ++ number samples := by
  have riff : tag "RIFF" = [0x52, 0x49, 0x46, 0x46] := by decide +kernel
  have wave : tag "WAVE" = [0x57, 0x41, 0x56, 0x45] := by decide +kernel
  have format : tag "fmt " = [0x66, 0x6d, 0x74, 0x20] := by decide +kernel
  have data : tag "data" = [0x64, 0x61, 0x74, 0x61] := by decide +kernel
  rw [header, riff, wave, format, data]

theorem length_header : (header sampleRate samples).length = 44 := by
  rw [header_eq]
  rfl

theorem sampleRate_header (later : List UInt8) :
    ((header sampleRate samples ++ later).drop 24).take 4 = number sampleRate := by
  rw [header_eq]
  rfl

end Header

theorem sound?_encode {sound : Wave.Sound} (fits : sound.sampleRate < 0x100000000) :
    sound? (encode sound) = some sound := by
  have length := length_header sound.sampleRate sound.samples.length
  have samples : (encode sound).drop 44 = sound.samples := by
    rw [encode, ← length, List.drop_left]
  have head : (encode sound).take 44 = header sound.sampleRate sound.samples.length := by
    rw [encode, ← length, List.take_left]
  have sampleRate : Midi.littleEndian (((encode sound).drop 24).take 4) = sound.sampleRate := by
    rw [encode, sampleRate_header, littleEndian_number fits]
  rw [sound?, samples, sampleRate, head, if_pos rfl]

/-- Files that are written like this hold what has been added to them. -/
theorem documented :
    Wave.Writer.Documented (fun (file : File) sound => file.sound = sound ∧ sound.sampleRate < 0x100000000)
      sound? where
  start := by
    intro sampleRate fits
    exact ⟨⟨sampleRate, []⟩, rfl, rfl, fits⟩
  add := by
    rintro file sound sample ⟨rfl, fits⟩
    refine ⟨{ file with latest := sample :: file.latest }, rfl, ?_, fits⟩
    simp only [File.sound, List.reverse_cons]
  bytes := by
    rintro file sound ⟨rfl, fits⟩
    exact sound?_encode fits

end Riff

end Buzzer
