import Lifeline.Text.CodePoint
import Lifeline.Text.Printable
/-!
# Quoted text

Error texts name a line or an identifier as a quoted literal: between single
quotes, or between double quotes if the text holds a single quote and no double
one. The quote and the backslash are escaped, and so is every character that
does not print. Half of a surrogate pair is no character and is escaped as well.
-/

namespace Lifeline.Text

/-- The lowercase hexadecimal digit of `n < 16`. -/
def hexDigit (n : Nat) : Char := if n < 10 then Char.ofNat (48 + n) else Char.ofNat (87 + n)

/-- The last `width` hexadecimal digits of `n`, the most significant first. -/
def hexDigits : Nat → Nat → List Char
  | 0, _ => []
  | width + 1, n => hexDigits width (n / 16) ++ [hexDigit (n % 16)]

/-- A character by its code point, in the narrowest of three widths. -/
def escapeCode (n : Nat) : List Char :=
  if n < 0x100 then '\\' :: 'x' :: hexDigits 2 n
  else if n < 0x10000 then '\\' :: 'u' :: hexDigits 4 n
  else '\\' :: 'U' :: hexDigits 8 n

/-- A code point as it stands between two of the given quotes. -/
def escapePoint (quote : Char) : CodePoint → List Char
  | .half h => escapeCode h.number
  | .char c =>
    if c == quote || c == '\\' then ['\\', c]
    else if c == '\n' then ['\\', 'n']
    else if c == '\r' then ['\\', 'r']
    else if c == '\t' then ['\\', 't']
    else if isPrintable c then [c]
    else escapeCode c.toNat

/-- The quote that a text is put between. -/
def quoteFor (points : Points) : Char :=
  if points.contains (.char '\'') && !points.contains (.char '"') then '"' else '\''

/-- Code points between quotes, escaped. -/
def quotedPoints (points : Points) : String :=
  let quote := quoteFor points
  String.ofList (quote :: points.flatMap (escapePoint quote) ++ [quote])

/-- A string between quotes, escaped. -/
def quoted (s : String) : String := quotedPoints (Points.ofString s)

/-- Several strings between brackets, each quoted. -/
def quotedList (ss : List String) : String := "[" ++ ", ".intercalate (ss.map quoted) ++ "]"

end Lifeline.Text
