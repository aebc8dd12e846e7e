import Lifeline.Text.Lines
/-!
# Decimal digits

The decimal digits of every script, and whole numbers written with them.
-/

namespace Lifeline.Text

/-- The zeros of the decimal digits of Unicode 14; the digits of a script follow
its zero in order. -/
def zeros : List Nat := [
  0x30, 0x660, 0x6F0, 0x7C0, 0x966, 0x9E6, 0xA66, 0xAE6, 0xB66, 0xBE6, 0xC66, 0xCE6, 0xD66, 0xDE6,
  0xE50, 0xED0, 0xF20, 0x1040, 0x1090, 0x17E0, 0x1810, 0x1946, 0x19D0, 0x1A80, 0x1A90, 0x1B50,
  0x1BB0, 0x1C40, 0x1C50, 0xA620, 0xA8D0, 0xA900, 0xA9D0, 0xA9F0, 0xAA50, 0xABF0, 0xFF10, 0x104A0,
  0x10D30, 0x11066, 0x110F0, 0x11136, 0x111D0, 0x112F0, 0x11450, 0x114D0, 0x11650, 0x116C0,
  0x11730, 0x118E0, 0x11950, 0x11C50, 0x11D50, 0x11DA0, 0x16A60, 0x16AC0, 0x16B50, 0x1D7CE,
  0x1D7D8, 0x1D7E2, 0x1D7EC, 0x1D7F6, 0x1E140, 0x1E2F0, 0x1E950, 0x1FBF0]

/-- The value of a decimal digit of any script. -/
def digitValue? (c : Char) : Option Nat :=
  (zeros.find? fun first => first ≤ c.toNat && c.toNat < first + 10).map (c.toNat - ·)

/-- The value of digits with single underscores between them; `value` is that of
the digits already read, `digit` says whether the last character was one. -/
def readDigits? (value : Nat) (digit : Bool) : List Char → Option Nat
  | [] => if digit then some value else none
  | c :: cs =>
    if c == '_' then if digit then readDigits? value false cs else none
    else match digitValue? c with
      | some n => readDigits? (10 * value + n) true cs
      | none => none

/-- A blank that may stand around a number: any but the information separators. -/
def isNumberBlank (c : Char) : Bool := isBlank c && !(0x1C ≤ c.toNat && c.toNat ≤ 0x1F)

/-- The most digits that a whole number may have. -/
def maxDigits : Nat := 4300

/-- A whole number between blanks: one sign at most, then digits with single
underscores between them. Zeros at the front count as digits. -/
def readWhole? (cs : List Char) : Option Int :=
  let inner := ((cs.dropWhile isNumberBlank).reverse.dropWhile isNumberBlank).reverse
  if maxDigits < (inner.filter fun c => (digitValue? c).isSome).length then none
  else match inner with
    | '-' :: digits => (readDigits? 0 false digits).map fun n => -(n : Int)
    | '+' :: digits => (readDigits? 0 false digits).map Int.ofNat
    | digits => (readDigits? 0 false digits).map Int.ofNat

end Lifeline.Text
