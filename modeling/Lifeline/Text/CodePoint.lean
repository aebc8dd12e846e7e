import Lifeline.Text.Lines
/-!
# Code points

The numbers of characters run from 0 to `0x10FFFF`, but for the 2048 halves of
surrogate pairs: two halves side by side can stand for one character, and a half
alone stands for none. An escaped notation can still name a half alone, so what it
writes down is a list of code points.

A string holds characters only. Where code points become a string, something has to
be written for a half: the replacement character, or the character that is chosen to
stand in for it.
-/

namespace Lifeline.Text

/-- A half of a surrogate pair, by its place among the halves. -/
abbrev Half := Fin 0x800

/-- The number of a half. -/
def Half.number (h : Half) : Nat := 0xD800 + h.val

/-- What is written for every half when nothing is chosen. -/
def Half.replaced (_ : Half) : Char := '\uFFFD'

/-- A character, or a half alone. -/
inductive CodePoint where
  | char (c : Char)
  | half (h : Half)
  deriving DecidableEq, Repr

namespace CodePoint

/-- The code point of a number. -/
def ofNumber (n : Nat) : CodePoint :=
  if h : 0xD800 ≤ n ∧ n < 0xE000 then .half ⟨n - 0xD800, by omega⟩ else .char (Char.ofNat n)

/-- Whether a code point is a blank; a half is none. -/
def isBlank : CodePoint → Bool
  | .char c => Text.isBlank c
  | .half _ => false

/-- What is written for a code point when `stand` says what is written for a half. -/
def written (stand : Half → Char) : CodePoint → Char
  | .char c => c
  | .half h => stand h

end CodePoint

/-- A text that may hold halves. -/
abbrev Points := List CodePoint

namespace Points

/-- A string as code points. -/
def ofString (s : String) : Points := s.toList.map .char

/-- Code points as a string. -/
def textWith (stand : Half → Char) (ps : Points) : String :=
  String.ofList (ps.map (CodePoint.written stand))

/-- Code points as a string, with every half replaced. -/
def text (ps : Points) : String := textWith Half.replaced ps

/-- The text with characters in the places of its halves. -/
def standing (stand : Half → Char) (ps : Points) : Points :=
  ps.map fun p => .char (p.written stand)

/-- The text without blanks at either end. -/
def trimmed (ps : Points) : Points :=
  ((ps.dropWhile CodePoint.isBlank).reverse.dropWhile CodePoint.isBlank).reverse

theorem trimmed_ofString (s : String) : trimmed (ofString s) = ofString (Text.trimmed s) := by
  have h : CodePoint.isBlank ∘ CodePoint.char = Text.isBlank := rfl
  simp only [trimmed, ofString, Text.trimmed, Text.trim, Text.trimEnd, Text.trimStart,
    List.dropWhile_map, ← List.map_reverse, h, String.toList_ofList]

end Points

end Lifeline.Text
