import Lifeline.Diagram.Basic
/-!
# Equality of diagrams

Trees are compared branch by branch, so equality of diagrams can be decided.
What was reported while a diagram was read is no part of it: two diagrams are the
same if they agree in everything but their diagnostics.
-/

namespace Lifeline

mutual

/-- Decides whether two nodes are equal. -/
def Node.decEq : (a b : Node) → Decidable (a = b)
  | .message m, .message n => decidable_of_iff (m = n) (by simp)
  | .note m, .note n => decidable_of_iff (m = n) (by simp)
  | .directive m, .directive n => decidable_of_iff (m = n) (by simp)
  | .block b, .block c =>
    have := Block.decEq b c
    decidable_of_iff (b = c) (by simp)
  | .message _, .note _ | .message _, .directive _ | .message _, .block _
  | .note _, .message _ | .note _, .directive _ | .note _, .block _
  | .directive _, .message _ | .directive _, .note _ | .directive _, .block _
  | .block _, .message _ | .block _, .note _ | .block _, .directive _ => isFalse (by simp)

/-- Decides whether two blocks are equal. -/
def Block.decEq : (a b : Block) → Decidable (a = b)
  | ⟨kind, label, color, branches, start, stop⟩, ⟨kind', label', color', branches', start', stop'⟩ =>
    have := Branch.decEqList branches branches'
    decidable_of_iff
      (kind = kind' ∧ label = label' ∧ color = color' ∧ branches = branches' ∧ start = start' ∧
        stop = stop') (by simp)

/-- Decides whether two branches are equal. -/
def Branch.decEq : (a b : Branch) → Decidable (a = b)
  | ⟨label, start, nodes⟩, ⟨label', start', nodes'⟩ =>
    have := Node.decEqList nodes nodes'
    decidable_of_iff (label = label' ∧ start = start' ∧ nodes = nodes') (by simp)

/-- Decides whether two lists of branches are equal. -/
def Branch.decEqList : (as bs : List Branch) → Decidable (as = bs)
  | [], [] => isTrue rfl
  | [], _ :: _ => isFalse (by simp)
  | _ :: _, [] => isFalse (by simp)
  | a :: as, b :: bs =>
    have := Branch.decEq a b
    have := Branch.decEqList as bs
    decidable_of_iff (a = b ∧ as = bs) (by simp)

/-- Decides whether two lists of nodes are equal. -/
def Node.decEqList : (as bs : List Node) → Decidable (as = bs)
  | [], [] => isTrue rfl
  | [], _ :: _ => isFalse (by simp)
  | _ :: _, [] => isFalse (by simp)
  | a :: as, b :: bs =>
    have := Node.decEq a b
    have := Node.decEqList as bs
    decidable_of_iff (a = b ∧ as = bs) (by simp)

end

instance : DecidableEq Node := Node.decEq
instance : DecidableEq Block := Block.decEq
instance : DecidableEq Branch := Branch.decEq

deriving instance DecidableEq for BlockStart
deriving instance DecidableEq for Statement
deriving instance DecidableEq for Diagram

/-- A diagram without what was reported about its source. -/
def Diagram.bare (d : Diagram) : Diagram := { d with diagnostics := [] }

/-- Whether two diagrams agree in everything but their diagnostics. -/
def Diagram.Same (a b : Diagram) : Prop := a.bare = b.bare

instance (a b : Diagram) : Decidable (a.Same b) := inferInstanceAs (Decidable (a.bare = b.bare))

/-- The diagram with every participant taken as declared. -/
def Diagram.declared (d : Diagram) : Diagram :=
  { d with participants := d.participants.map fun p => { p with explicit := true } }

end Lifeline
