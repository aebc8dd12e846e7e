import Lifeline.Decimal.Binary64
/-!
# The shortest decimal

Of the decimals that read back as a given binary number, the one with the fewest
digits is written, and of those the nearest. The search walks the decimal grids
from one digit to seventeen and asks on each whether one of the value's two
neighbours rounds to the number.
-/

namespace Lifeline.Decimal

/-- The decimals that round to a positive binary number: those between `low` and
`high`, counted in quarters of a unit of `unit / scale`, with both ends if
`closed`. The number itself is `middle` quarters. -/
structure Neighbourhood where
  low : Nat
  middle : Nat
  high : Nat
  closed : Bool
  unit : Nat
  scale : Nat

/-- The neighbourhood of `significand * 2 ^ exponent`. Below a power of two the
next number is only half as far as above it. -/
def neighbourhood (significand : Nat) (exponent : Int) : Neighbourhood :=
  let nearer := significand == Binary64.leastFull && Binary64.minExponent < exponent
  let (unit, scale) := scaled 2 1 (exponent - 2)
  { low := 4 * significand - (if nearer then 1 else 2)
    middle := 4 * significand
    high := 4 * significand + 2
    closed := significand % 2 == 0
    unit, scale }

/-- Whether the decimal `digits * 10 ^ power`, given as a quotient, lies in the
neighbourhood. -/
def Neighbourhood.holds (n : Neighbourhood) (num den : Nat) : Bool :=
  let here := num * n.scale
  let low := n.low * n.unit * den
  let high := n.high * n.unit * den
  if n.closed then low ≤ here && here ≤ high else low < here && here < high

/-- The whole exponent `k` for which `num / den` lies in `[10 ^ k, 10 ^ (k + 1))`,
found among the `steps` exponents down from `guess`. -/
def floorLog10 (num den : Nat) : Nat → Int → Int
  | 0, guess => guess
  | steps + 1, guess =>
    let (lead, unit) := scaled 10 den guess
    if lead ≤ num * unit then guess else floorLog10 num den steps (guess - 1)

/-- The nearer of the two neighbours of the number on the grid of `10 ^ power` that
round to it, an exact tie going to the even one. -/
def Neighbourhood.onGrid? (n : Neighbourhood) (power : Int) : Option Nat :=
  let (one, den) := scaled 10 1 power
  let num := n.middle * n.unit * den
  let step := one * n.scale
  let below := num / step
  let above := below + 1
  let isIn (k : Nat) : Bool := 0 < k && n.holds (k * one) den
  match isIn below, isIn above with
  | true, true => some (roundDiv num step)
  | true, false => some below
  | false, true => some above
  | false, false => none

/-- The digits of the shortest decimal and the power of ten they are multiplied by,
searched on the grids of `count` digits and more. -/
def shortestFrom (n : Neighbourhood) (top : Int) : Nat → Nat → Nat × Int
  | 0, count => (((n.onGrid? (top + 1 - count)).getD 0), top + 1 - count)
  | steps + 1, count =>
    match n.onGrid? (top + 1 - count) with
    | some digits => (digits, top + 1 - count)
    | none => shortestFrom n top steps (count + 1)

/-- The shortest decimal of a positive binary number, as digits times a power of
ten. -/
def shortest (significand : Nat) (exponent : Int) : Nat × Int :=
  let n := neighbourhood significand exponent
  let num := n.middle * n.unit
  let guess : Int := (Binary64.floorLog2 num n.scale + 1) * 30103 / 100000 + 1
  let top := floorLog10 num n.scale 4 guess
  shortestFrom n top 16 1

end Lifeline.Decimal
