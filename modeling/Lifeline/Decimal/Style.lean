import Lifeline.Decimal.Shortest
/-!
# How a number is written

A number is written by its shortest digits, positionally or with an exponent
depending on its size. The choices stand together in one record.
-/

namespace Lifeline.Decimal

/-- The choices left open by the digits: numbers from `10 ^ positionalFrom` up to
but without `10 ^ positionalBelow` are written positionally, a whole one followed
by `wholeMark`; the exponent of the others has a sign and at least
`exponentDigits` digits. -/
structure Style where
  positionalFrom : Int
  positionalBelow : Int
  wholeMark : String
  exponentDigits : Nat
  infinity : String
  nan : String

/-- Positional from 0.0001 up to sixteen digits, with `.0` after a whole number and
at least two digits in an exponent. -/
def Style.plain : Style := ⟨-4, 16, ".0", 2, "inf", "nan"⟩

/-- The text with zeros in front up to a width. -/
def padZeros (width : Nat) (s : String) : String :=
  String.ofList (List.replicate (width - s.length) '0') ++ s

/-- The digits without trailing zeros, and the power of ten adjusted; at most
`steps` zeros are dropped. -/
def dropZeros : Nat → Nat → Int → Nat × Int
  | 0, digits, power => (digits, power)
  | steps + 1, digits, power =>
    if digits % 10 == 0 then dropZeros steps (digits / 10) (power + 1) else (digits, power)

/-- A positive number given by its digits and a power of ten. -/
def Style.writeDigits (style : Style) (digits : Nat) (power : Int) : String :=
  let (digits, power) := dropZeros 17 digits power
  let text := (Nat.toDigits 10 digits)
  let top : Int := power + text.length - 1
  if style.positionalFrom ≤ top && top < style.positionalBelow then
    if 0 ≤ power then
      String.ofList (text ++ List.replicate power.toNat '0') ++ style.wholeMark
    else if 0 ≤ top then
      let whole := (top + 1).toNat
      String.ofList (text.take whole ++ '.' :: text.drop whole)
    else String.ofList ('0' :: '.' :: List.replicate ((-top).toNat - 1) '0' ++ text)
  else
    let fraction := if text.length ≤ 1 then [] else '.' :: text.drop 1
    let sign := if top < 0 then "-" else "+"
    String.ofList (text.take 1 ++ fraction) ++ "e" ++ sign ++
      padZeros style.exponentDigits (toString top.natAbs)

/-- A number in the given style. -/
def Style.write (style : Style) : Binary64 → String
  | .nan => style.nan
  | .infinite negative => (if negative then "-" else "") ++ style.infinity
  | .finite negative significand exponent =>
    (if negative then "-" else "") ++
      (if significand == 0 then "0" ++ style.wholeMark
       else
        let (digits, power) := shortest significand exponent
        style.writeDigits digits power)

end Lifeline.Decimal
