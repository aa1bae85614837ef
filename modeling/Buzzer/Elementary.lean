import Buzzer.FloatLibrary

/-!
Logarithms and powers of floating-point numbers, fixed down to the last bit. The functions that come
with a machine may differ in that bit from those of another, and a rounded result can show it. Both are
polynomials near 1, and what is lost by rounding on the way is kept in a second number.
-/
namespace Buzzer

namespace Elementary

/-- A number without the lowest bits of its mantissa. -/
def cut (bits : UInt64) (x : Float) : Float := Float.ofBits (x.toBits >>> bits <<< bits)

/-- The upper half of a number. A product of two such halves is exact. -/
def upper (x : Float) : Float := cut 32 x

/-- The value of a polynomial, with the coefficient of the lowest power first. -/
def polynomial (coefficients : List Float) (x : Float) : Float :=
  match coefficients with
  | [] => 0
  | [last] => last
  | coefficient :: higher => coefficient + x * polynomial higher x

/-- A positive number as a power of two and a number that is close to 1. -/
structure Scaled where
  exponent : Int
  factor : Float

namespace Scaled

/-- The bits of the least number, about the square root of one half, that counts as close to 1. -/
def leastBits : Nat := 0x3fe6a09e00000000

/-- The bits of a number besides its mantissa count powers of two. -/
def ofNormal (x : Float) : Scaled :=
  let shifted := x.toBits.toNat + 0x3ff <<< 52 - leastBits
  { exponent := (shifted >>> 52 : Nat) - 0x3ff
    factor := Float.ofBits (UInt64.ofNat (shifted % 0x10000000000000 + leastBits)) }

/-- A number whose mantissa is not full is made greater first. -/
def ofPositive (x : Float) : Scaled :=
  if x.toBits < 0x10000000000000 then
    let scaled := ofNormal (x.scaleB 54)
    { scaled with exponent := scaled.exponent - 54 }
  else ofNormal x

end Scaled

/-- The upper half of the binary logarithm of e. -/
def log2eUpper : Float := 1.44269504072144627571

/-- The rest of the binary logarithm of e. -/
def log2eLower : Float := 1.67517131648865118353e-10

/-- The binary logarithm of a number that is not below zero. It is a series in
`(factor - 1) / (factor + 1)`, whose first terms are taken exactly. -/
def logOfPositive (x : Float) : Float :=
  let ⟨exponent, factor⟩ := Scaled.ofPositive x
  let above := factor - 1
  let halfSquare := 0.5 * above * above
  let ratio := above / (2 + above)
  let square := ratio * ratio
  let fourth := square * square
  let even := fourth * polynomial
    [3.999999999940941908e-01, 2.222219843214978396e-01, 1.531383769920937332e-01] fourth
  let odd := square * polynomial
    [6.666666666666735130e-01, 2.857142874366239149e-01, 1.818357216161805012e-01,
      1.479819860511658591e-01] fourth
  let first := upper (above - halfSquare)
  let rest := above - first - halfSquare + ratio * (halfSquare + (odd + even))
  let whole := Float.ofInt exponent
  let firstLog := first * log2eUpper
  let sum := whole + firstLog
  (rest + first) * log2eLower + rest * log2eUpper + (whole - sum + firstLog) + sum

/-- The binary logarithm. There is none of a number below zero. -/
def log2 (x : Float) : Float :=
  if x.isNaN then x
  else if x == 0 then -1 / 0
  else if x < 0 then 0 / 0
  else if x.isInf then x
  else logOfPositive x

/-- A number in two parts, which is more exact than one. -/
structure Parts where
  first : Float
  rest : Float

/-- A number near which logarithms are taken, and its own logarithm. -/
structure Anchor where
  value : Float
  log : Parts

namespace Anchor

def one : Anchor := ⟨1, ⟨0, 0⟩⟩

def oneAndHalf : Anchor := ⟨1.5, ⟨5.84962487220764160156e-01, 1.35003920212974897128e-08⟩⟩

end Anchor

/-- The logarithm of a factor close to an anchor, which is added to a whole number, in two parts. -/
def partsOfLog (anchor : Anchor) (whole factor : Float) : Parts :=
  let above := factor - anchor.value
  let inverse := 1 / (factor + anchor.value)
  let ratio := above * inverse
  let ratioUpper := upper ratio
  let sumUpper := cut 33 factor + anchor.value
  let sumRest := factor - (sumUpper - anchor.value)
  let ratioRest := inverse * (above - ratioUpper * sumUpper - ratioUpper * sumRest)
  let square := ratio * ratio
  let tail := square * square * polynomial
    [5.99999999999994648725e-01, 4.28571428578550184252e-01, 3.33333329818377432918e-01,
      2.72728123808534006489e-01, 2.30660745775561754067e-01, 2.06975017800338417784e-01] square +
    ratioRest * (ratioUpper + ratio)
  let square := ratioUpper * ratioUpper
  let seriesUpper := upper (3 + square + tail)
  let seriesRest := tail - (seriesUpper - 3 - square)
  let product := ratioUpper * seriesUpper
  let productRest := ratioRest * seriesUpper + seriesRest * ratio
  let logUpper := upper (product + productRest)
  let logRest := productRest - (logUpper - product)
  let scaled := 9.61796700954437255859e-01 * logUpper
  let scaledRest :=
    -7.02846165095275826516e-09 * logUpper + logRest * 9.61796693925975554329e-01 + anchor.log.rest
  let first := upper (scaled + scaledRest + anchor.log.first + whole)
  ⟨first, scaledRest - (first - whole - anchor.log.first - scaled)⟩

/-- The binary logarithm of a positive number with a full mantissa, in two parts. Its mantissa is
close to 1, to one and a half, or to 2. -/
def logParts (x : Float) : Parts :=
  let bits := x.toBits.toNat
  let exponent : Int := (bits >>> 52 : Nat) - 0x3ff
  let mantissa := bits % 0x10000000000000
  let factor (exponent : Nat) : Float := Float.ofBits (UInt64.ofNat (exponent <<< 52 + mantissa))
  if mantissa < 0x3988f00000000 then partsOfLog .one (Float.ofInt exponent) (factor 0x3ff)
  else if mantissa < 0xbb67a00000000 then
    partsOfLog .oneAndHalf (Float.ofInt exponent) (factor 0x3ff)
  else partsOfLog .one (Float.ofInt (exponent + 1)) (factor 0x3fe)

/-- Two to the power of a number in two parts, where the power has a full mantissa. -/
def exp2OfParts (exponent : Parts) : Float :=
  let sum := exponent.rest + exponent.first
  let whole := if 0.5 < (upper sum).abs then sum.round else 0
  let first := exponent.first - whole
  let fraction := upper (exponent.rest + first)
  let main := fraction * 6.93147182464599609375e-01
  let small := (exponent.rest - (fraction - first)) * 6.93147180559945286227e-01 +
    fraction * -1.90465429995776804525e-09
  let power := main + small
  let powerRest := small - (power - main)
  let square := power * power
  let series := power - square * polynomial
    [1.66666666666666019037e-01, -2.77777777770155933842e-03, 6.61375632143793436117e-05,
      -1.65339022054652515390e-06, 4.13813679705723846039e-08] square
  let quotient := power * series / (series - 2) - (powerRest + power * powerRest)
  (1 - (quotient - power)).scaleB whole.toInt64.toInt

/-- A power of a positive number, where both it and the power have a full mantissa. -/
def power (base exponent : Float) : Float :=
  let log := logParts base
  let exponentUpper := upper exponent
  exp2OfParts
    { first := exponentUpper * log.first
      rest := (exponent - exponentUpper) * log.first + exponent * log.rest }

instance library : FloatLibrary where
  round := Float.round
  power := power
  log2 := log2

end Elementary

end Buzzer
