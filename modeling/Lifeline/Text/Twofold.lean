import Lifeline.Text.CodePoint
/-!
# Twofold texts

A text that is made as a string still shows its halves if it is made twice. In the
two writings a half is written as two different characters, and all else alike: a
half is where they differ. No character has to be kept free for this.
-/

namespace Lifeline.Text

/-- What a half is written as in the first writing. -/
def Half.first (h : Half) : Char := Char.ofNat (0xE000 + h.val)

/-- What a half is written as in the second writing. -/
def Half.second (h : Half) : Char := Char.ofNat (0xF0000 + h.val)

/-- A text in two writings. -/
structure Twofold where
  first : String
  second : String
  deriving DecidableEq, Repr

namespace Twofold

/-- A text without halves. -/
def ofString (s : String) : Twofold := ⟨s, s⟩

/-- The code point that two characters in the same place of two writings stand for. -/
def point (a b : Char) : CodePoint := if a == b then .char a else .ofNumber (a.toNat - 0x800)

/-- The code points of a text. -/
def points (t : Twofold) : Points := List.zipWith point t.first.toList t.second.toList

/-- A text with both writings changed alike. -/
def map (f : String → String) (t : Twofold) : Twofold := ⟨f t.first, f t.second⟩

theorem toNat_first (h : Half) : h.first.toNat = 0xE000 + h.val := by
  rw [Half.first, Char.ofNat, dif_pos (Or.inr ⟨by omega, by omega⟩)]
  rfl

theorem toNat_second (h : Half) : h.second.toNat = 0xF0000 + h.val := by
  rw [Half.second, Char.ofNat, dif_pos (Or.inr ⟨by omega, by omega⟩)]
  rfl

end Twofold

/-! ## Encoding -/

/-- Why a text cannot be encoded: the place of the first half in it, that half, and how
many more follow it side by side. -/
structure EncodingFault where
  place : Nat
  half : Half
  more : Nat
  deriving DecidableEq, Repr

/-- How many halves stand side by side at the start of a text. -/
def halvesAhead : Points → Nat
  | .half _ :: ps => halvesAhead ps + 1
  | _ => 0

/-- What keeps a text from being encoded, if `place` code points come before it. -/
def encodingFault? (place : Nat) : Points → Option EncodingFault
  | [] => none
  | .char _ :: ps => encodingFault? (place + 1) ps
  | .half h :: ps => some ⟨place, h, halvesAhead ps⟩

end Lifeline.Text
