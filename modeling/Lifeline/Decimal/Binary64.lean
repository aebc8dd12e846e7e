/-!
# Numbers of 64 bits

A number with a fraction or an exponent is kept as the nearest binary number
with a significand of 53 bits, in exact arithmetic: `significand * 2 ^ exponent`.
The exponent is never below -1074, and a number too large for exponent 971 is
infinite.
-/

namespace Lifeline.Decimal

/-- A binary number of 64 bits. -/
inductive Binary64 where
  | finite (negative : Bool) (significand : Nat) (exponent : Int)
  | infinite (negative : Bool)
  | nan
  deriving DecidableEq, Repr

/-- The quotient of two numbers rounded to the nearest whole number, a half to the
even neighbour. -/
def roundDiv (num den : Nat) : Nat :=
  let low := num / den
  let twice := 2 * (num % den)
  if twice < den then low
  else if den < twice then low + 1
  else low + low % 2

/-- A number by its numerator and denominator times a power of a base. -/
def scaled (base num : Nat) (power : Int) : Nat × Nat :=
  if 0 ≤ power then (num * Nat.pow base power.toNat, 1)
  else (num, Nat.pow base (-power).toNat)

namespace Binary64

/-- The least exponent. -/
def minExponent : Int := -1074

/-- The greatest exponent of a finite number. -/
def maxExponent : Int := 971

/-- The least significand of a number that is not too small for all 53 bits. -/
def leastFull : Nat := Nat.pow 2 52

/-- The whole exponent `k` for which a positive quotient lies in `[2 ^ k, 2 ^ (k + 1))`. -/
def floorLog2 (num den : Nat) : Int :=
  let guess : Int := num.log2 - den.log2
  let (lead, unit) := scaled 2 den guess
  if lead ≤ num * unit then guess else guess - 1

/-- The nearest number to a positive quotient. -/
def ofQuotient (negative : Bool) (num den : Nat) : Binary64 :=
  let exponent := max minExponent (floorLog2 num den - 52)
  let (lead, unit) := scaled 2 den exponent
  let significand := roundDiv (num * unit) lead
  let (significand, exponent) :=
    if significand == 2 * leastFull then (leastFull, exponent + 1) else (significand, exponent)
  if maxExponent < exponent then infinite negative else finite negative significand exponent

/-- The number of decimal digits of a number, at least one. -/
def digitCount (n : Nat) : Nat := (Nat.toDigits 10 n).length

/-- The nearest number to `digits * 10 ^ power`. Beyond the range of the format the
exponent alone decides, so that no huge power is computed. -/
def ofDecimal (negative : Bool) (digits : Nat) (power : Int) : Binary64 :=
  let size : Int := digitCount digits + power
  if digits == 0 || size < -330 then finite negative 0 minExponent
  else if 310 < size then infinite negative
  else
    let (num, den) := scaled 10 digits power
    ofQuotient negative num den

end Binary64

end Lifeline.Decimal
