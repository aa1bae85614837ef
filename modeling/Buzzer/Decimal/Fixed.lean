/-!
Numbers written with a fixed number of decimal places, correctly rounded from their exact value.
-/
namespace Buzzer

namespace Decimal

/-- The exact value of a floating-point number; a finite one is `mantissa * 2 ^ exponent`. -/
inductive Exact where
  | finite (negative : Bool) (mantissa : Nat) (exponent : Int)
  | infinite (negative : Bool)
  | undefined

def Exact.ofFloat (value : Float) : Exact :=
  let bits := value.toBits.toNat
  let negative := bits.testBit 63
  let fraction := bits % 0x10000000000000
  match (bits >>> 52) % 0x800 with
  | 0 => .finite negative fraction (-1074)
  | 2047 => if fraction = 0 then .infinite negative else .undefined
  | biased => .finite negative (0x10000000000000 + fraction) (biased - 1075)

/-- A quotient rounded to the nearest number, and to the even one of two. -/
def roundDiv (numerator denominator : Nat) : Nat :=
  let quotient := numerator / denominator
  let twice := 2 * (numerator % denominator)
  if denominator < twice ∨ denominator = twice ∧ quotient % 2 = 1 then quotient + 1 else quotient

/-- A number of units of the last of some decimal places, with a point before them. -/
def withPoint (places units : Nat) : String :=
  let digits := toString units
  let padded := "".pushn '0' (places + 1 - digits.length) ++ digits
  let whole := padded.length - places
  if places = 0 then padded
  else String.ofList (padded.toList.take whole) ++ "." ++ String.ofList (padded.toList.drop whole)

/-- A number with a fixed number of places. It has a minus sign if it is below zero even when
rounded. -/
def fixed (places : Nat) (value : Float) : String :=
  let sign (negative : Bool) : String := if negative then "-" else ""
  match Exact.ofFloat value with
  | .undefined => "nan"
  | .infinite negative => sign negative ++ "inf"
  | .finite negative mantissa exponent =>
    let scaled := mantissa * Nat.pow 10 places
    let units := roundDiv (scaled <<< exponent.toNat) (1 <<< (-exponent).toNat)
    sign (negative && units != 0) ++ withPoint places units

end Decimal

end Buzzer
