/-!
The functions for floating-point numbers that come from a library. Libraries agree on what they compute,
but not on the last bit of a power or a logarithm.
-/
namespace Buzzer

/-- A library for floating-point numbers. -/
class FloatLibrary where
  /-- The nearest whole number, and of two of them the one farther from zero. -/
  round : Float → Float
  /-- The first number to the power of the second. -/
  power : Float → Float → Float
  /-- The binary logarithm. -/
  log2 : Float → Float

end Buzzer
