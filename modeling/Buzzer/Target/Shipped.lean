import Buzzer.Target.Basic

/-!
The targets that are ready for use.
-/
namespace Buzzer

namespace Target

/-- The volume of the shipped targets. -/
def defaultVolume : UInt8 := 2

/-- The periods of C2 to C8 at 5 MHz, at most 0.1 semitone off. -/
def periods5MHz : Array UInt16 := #[
  38222, 36076, 34051, 32140, 30336, 28634, 27026, 25510, 24078, 22726, 21451, 20247,
  19110, 18038, 17025, 16070, 15168, 14316, 13513, 12754, 12038, 11363, 10725, 10123,
  9555, 9018, 8512, 8034, 7583, 7158, 6756, 6377, 6019, 5681, 5362, 5061,
  4777, 4509, 4256, 4017, 3791, 3578, 3377, 3188, 3009, 2840, 2680, 2530,
  2388, 2254, 2127, 2008, 1895, 1789, 1688, 1593, 1504, 1419, 1340, 1264,
  1193, 1126, 1063, 1003, 947, 894, 844, 796, 751, 709, 669, 632,
  596]

/-- The periods of B2 to C#7 at 62.5 kHz, at most 0.3 semitone off. -/
def periods62kHz : Array UInt16 := #[
  252, 238, 224, 212, 200, 189, 178, 168, 158, 149, 141, 133,
  126, 118, 112, 105, 99, 94, 88, 83, 79, 74, 70, 66,
  62, 59, 55, 52, 49, 46, 44, 41, 39, 37, 35, 33,
  31, 29, 27, 26, 24, 23, 21, 20, 19, 18, 17, 16,
  15, 14, 13]

/-- The periods of C2 to C8 at 2 MHz, at most 0.01 semitone off. -/
def periods2MHz : Array UInt16 := #[
  15288, 14430, 13620, 12855, 12134, 11453, 10810, 10203, 9630, 9090, 8580, 8098,
  7644, 7214, 6809, 6427, 6066, 5726, 5404, 5101, 4815, 4544, 4289, 4049,
  3821, 3607, 3404, 3213, 3033, 2862, 2702, 2550, 2407, 2272, 2144, 2024,
  1910, 1803, 1702, 1606, 1516, 1431, 1350, 1275, 1203, 1135, 1072, 1011,
  955, 901, 850, 803, 757, 715, 675, 637, 601, 567, 535, 505,
  477, 450, 425, 401, 378, 357, 337, 318, 300, 283, 267, 252,
  238]

/-- ATmega3208 at 10 MHz: three channels with equal timers, and an output period of 24 counts. -/
def atmega3208 : Target :=
  { channels := List.replicate 3 ⟨5000000, periods5MHz, 0⟩
    levels := #[
      0, 1, 1, 2, 1, 2, 2, 3,
      0, 2, 2, 4, 2, 4, 4, 6,
      0, 4, 4, 8, 4, 8, 8, 12,
      0, 8, 8, 16, 8, 16, 16, 24]
    pwmTop := 24
    volume := defaultVolume }

/-- ATmega328P at 16 MHz: two channels, the first with a timer too coarse for the lowest and the
highest pitches. -/
def atmega328p : Target :=
  { channels := [⟨62500, periods62kHz, -11⟩, ⟨2000000, periods2MHz, 0⟩]
    levels := #[
      0, 15, 15, 31,
      0, 31, 31, 63,
      0, 63, 63, 127,
      0, 127, 127, 255]
    pwmTop := 255
    volume := defaultVolume }

/-- The target of a name, as given on a command line. -/
def named? : String → Option Target
  | "atmega3208" => some atmega3208
  | "atmega328p" => some atmega328p
  | _ => none

end Target

end Buzzer
