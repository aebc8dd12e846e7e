/-!
# Control sequences

A terminal is told to move its cursor or to change its colours by control sequences:
an escape character, a bracket, parameters and a letter. A text that is meant to be
read holds none, so they are taken out of what is shown.

A sequence is recognized where its escape character stands. What the removal of one
brings together is not looked at again.
-/

namespace Lifeline.Text

/-- Whether a character may stand among the parameters of a control sequence. -/
def isParameter (c : Char) : Bool := c.isDigit || c == ';' || c == '?'

/-- What follows the control sequence at the start of a text, if there is one. -/
def afterSequence? : List Char → Option (List Char)
  | '\x1b' :: '[' :: cs =>
    match cs.dropWhile isParameter with
    | [] => none
    | c :: rest => if c.isAlpha then some rest else none
  | _ => none

theorem length_afterSequence? {cs rest : List Char} (h : afterSequence? cs = some rest) :
    rest.length < cs.length := by
  unfold afterSequence? at h
  split at h
  · next body =>
    have shorter := (List.dropWhile_sublist isParameter (l := body)).length_le
    split at h
    · simp at h
    · next c tail hbody =>
      rw [hbody] at shorter
      split at h
      · simp only [Option.some.injEq] at h
        subst h
        simp only [List.length_cons] at shorter ⊢
        omega
      · simp at h
  · simp at h

/-- A text without its control sequences. -/
def withoutSequences : List Char → List Char
  | [] => []
  | c :: cs =>
    match _h : afterSequence? (c :: cs) with
    | some rest => withoutSequences rest
    | none => c :: withoutSequences cs
termination_by cs => cs.length
decreasing_by
  · exact length_afterSequence? (by assumption)
  · simp

/-- The text of a string as it is shown. -/
def shown (s : String) : String := String.ofList (withoutSequences s.toList)

end Lifeline.Text
