import Lifeline.Diagram.Basic
import Lifeline.Text.Quoted
/-!
# Valid messages and notes

A message may not both activate and deactivate one of its ends. A note has a
target, and one beside a participant has exactly one.
-/

namespace Lifeline

/-- The word for a placement. -/
def Placement.word : Placement → String
  | .left => "left"
  | .right => "right"
  | .over => "over"

/-- Why a message or a note is not valid. -/
inductive StatementFault where
  | sourceBoth (source target : String)
  | targetBoth (source target : String)
  | noTarget
  | manyTargets (placement : Placement) (targets : List String)
  deriving DecidableEq, Repr

/-- The wording of a fault. -/
def StatementFault.message : StatementFault → String
  | .sourceBoth source target => s!"message {source}->{target}: source both activated and deactivated"
  | .targetBoth source target => s!"message {source}->{target}: target both activated and deactivated"
  | .noTarget => "note needs at least one target"
  | .manyTargets placement targets =>
    s!"note {placement.word} of needs exactly one target, got {Text.quotedList targets}"

/-- The verdict on something that has the given fault, or none. -/
def StatementFault.verdict : Option StatementFault → Except StatementFault Unit
  | some fault => .error fault
  | none => .ok ()

/-- What is wrong with a message; its source is looked at first. -/
def Message.fault? (m : Message) : Option StatementFault :=
  if m.source.activates && m.source.deactivates then some (.sourceBoth m.source.id m.target.id)
  else if m.target.activates && m.target.deactivates then some (.targetBoth m.source.id m.target.id)
  else none

/-- What is wrong with a note. -/
def Note.fault? (n : Note) : Option StatementFault :=
  if n.targets.isEmpty then some .noTarget
  else if n.placement != .over && n.targets.length != 1 then
    some (.manyTargets n.placement n.targets)
  else none

theorem Message.fault?_eq_none_iff (m : Message) : m.fault? = none ↔
    ¬(m.source.activates ∧ m.source.deactivates) ∧ ¬(m.target.activates ∧ m.target.deactivates) := by
  unfold Message.fault?
  split <;> simp_all

end Lifeline
