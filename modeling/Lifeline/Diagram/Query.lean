import Lifeline.Diagram.Validity
import Lifeline.Text.Inline
/-!
# Looking things up in a diagram

The parts of a diagram by id, by order or by kind. A place in a list counts from 0,
and a negative one from the end.
-/

namespace Lifeline

/-- The strings without repetition in ascending order. -/
def sortedSet (ss : List String) : List String :=
  (ss.eraseDups).mergeSort fun a b => decide (a ≤ b)

theorem nodup_eraseDups {α : Type} [BEq α] [LawfulBEq α] (xs : List α) : xs.eraseDups.Nodup := by
  match xs with
  | [] => exact List.nodup_nil
  | x :: xs =>
    rw [List.eraseDups_cons, List.nodup_cons]
    exact ⟨by simp [List.mem_eraseDups], nodup_eraseDups _⟩
termination_by xs.length
decreasing_by exact Nat.lt_succ_of_le (List.length_filter_le _ _)

theorem mem_sortedSet {ss : List String} {s : String} : s ∈ sortedSet ss ↔ s ∈ ss := by
  simp [sortedSet, List.mem_mergeSort, List.mem_eraseDups]

theorem pairwise_sortedSet (ss : List String) : (sortedSet ss).Pairwise (· < ·) := by
  have hsorted : (sortedSet ss).Pairwise fun a b => decide (a ≤ b) = true :=
    List.pairwise_mergeSort (fun a b c hab hbc => by simpa using String.le_trans (by simpa using hab) (by simpa using hbc))
      (fun a b => by simpa using String.le_total a b) _
  have hnodup : (sortedSet ss).Nodup := (List.mergeSort_perm _ _).nodup_iff.2 (nodup_eraseDups ss)
  refine (hsorted.and hnodup).imp fun ⟨hle, hne⟩ => ?_
  exact Std.lt_of_le_of_ne (by simpa using hle) hne

/-- The least number that is too large for an index or a length. -/
def indexLimit : Nat := Nat.pow 2 63

/-- Why there is no element at a place. -/
inductive PlaceError where
  | outside
  | tooLarge
  deriving DecidableEq, Repr

/-- The wording of an error. -/
def PlaceError.message : PlaceError → String
  | .outside => "list index out of range"
  | .tooLarge => "cannot fit 'int' into an index-sized integer"

/-- The element at a place that may count from the end. -/
def atPlace {α : Type} (items : List α) (place : Int) : Except PlaceError α :=
  if place < -indexLimit || indexLimit ≤ place then .error .tooLarge
  else
    let index := if place < 0 then place + items.length else place
    if index < 0 then .error .outside
    else match items[index.toNat]? with
      | some item => .ok item
      | none => .error .outside

namespace Diagram

/-- The first participant of an id. -/
def participant? (d : Diagram) (id : String) : Option Participant :=
  d.participants.find? fun p => p.id == id

/-- The ids of the participants in order. -/
def participantIds (d : Diagram) : List String := d.participants.map Participant.id

/-- The messages of the timeline. -/
def messages (d : Diagram) : List Message :=
  d.timeline.filterMap fun | .message m => some m | _ => none

/-- The notes of the timeline. -/
def notes (d : Diagram) : List Note :=
  d.timeline.filterMap fun | .note n => some n | _ => none

/-- The directives of the timeline. -/
def directives (d : Diagram) : List Directive :=
  d.timeline.filterMap fun | .directive x => some x | _ => none

/-- The blocks that the timeline opens, in the order in which they begin. -/
def blocks (d : Diagram) : List Block :=
  d.timeline.filterMap fun | .blockStart s => some s.block | _ => none

/-- The block that the item at an order opens. -/
def blockAt? (d : Diagram) (order : Int) : Option Block :=
  if order < 0 then none
  else match d.timeline[order.toNat]? with
    | some (.blockStart s) => some s.block
    | _ => none

/-- The first box that lists an id, with its place among the boxes. -/
def boxOf? (d : Diagram) (id : String) : Option (Nat × Box) :=
  (d.boxes.zipIdx.find? fun (box, _) => box.members.contains id).map fun (box, i) => (i, box)

/-- The ids that the timeline creates, without repetition and in ascending order. -/
def createdIds (d : Diagram) : List String :=
  sortedSet ((d.directives.filter fun x => x.kind == .create).map Directive.id)

/-- The item at a place of the timeline. -/
def itemAt (d : Diagram) (place : Int) : Except PlaceError Statement := atPlace d.timeline place

end Diagram

/-- The lines of a text that may be absent or empty, which then has none. -/
def textLines (text : Option String) : List String :=
  match text with
  | some s => if s.isEmpty then [] else Text.markedLines s
  | none => []

/-- The lines of a message or a note; other items have no text. -/
def Statement.textLines? : Statement → Option (List String)
  | .message m => some (textLines m.text)
  | .note n => some (textLines (some n.text))
  | _ => none

/-- Whether a participant is at one end of a message; other items have no ends. -/
def Statement.involves? (id : String) : Statement → Option Bool
  | .message m => some (m.involves id)
  | _ => none

/-- Checks a message or a note; there is nothing to check in other items. -/
def Statement.check? : Statement → Option (Except StatementFault Unit)
  | .message m => some (StatementFault.verdict m.fault?)
  | .note n => some (StatementFault.verdict n.fault?)
  | _ => none

end Lifeline
