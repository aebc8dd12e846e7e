import Lifeline.Diagram.Roster
import Lifeline.Diagram.Validity
import Lifeline.Draft.Frame
import Lifeline.Draft.Tree
import Lifeline.Text.Inline
/-!
# Diagrams under construction

A draft is changed by one operation at a time. It keeps what happens twice. The
timeline is the list of what has happened, latest first: almost every operation puts
one item in front. The tree is changed where it grows, through the innermost open
frame of a block. An activation may also be folded into a message in front, and the
label of an open branch may grow; then both have to follow.

An operation that fails says why. What it registered before it failed stays, so
an attempt gives a draft in either case.
-/

namespace Lifeline

/-- Orders of directives that wait for a message, by participant. -/
abbrev Waiting := List (String × Int)

namespace Waiting

/-- The order that waits for a participant. -/
def get? (w : Waiting) (id : String) : Option Int := w.lookup id

/-- No order waits for the participant any more. -/
def clear (w : Waiting) (id : String) : Waiting := w.filter fun e => e.1 != id

/-- An order waits for the participant, in place of any earlier one. -/
def set (w : Waiting) (id : String) (order : Int) : Waiting := (id, order) :: w.clear id

end Waiting

/-- A diagram under construction: among other things the timeline, latest item first, and
the tree. A frame of a block remembers the order of its start, by which the block is
found in the tree, and a frame of a box its place among the boxes. -/
structure Draft where
  roster : Roster := {}
  past : List Statement := []
  statements : List Node := []
  boxes : List Box := []
  autonumber : Bool := false
  frames : Frames Nat := []
  awaitingCreate : Waiting := []
  awaitingDestroy : Waiting := []

/-- Why an operation failed. -/
inductive DraftError where
  | emptyId
  | invalid (fault : StatementFault)
  | frame (error : FrameError)
  deriving DecidableEq, Repr

/-- The wording of an error. -/
def DraftError.message : DraftError → String
  | .emptyId => "participant id must not be empty"
  | .invalid fault => fault.message
  | .frame error => error.message

/-- What an operation leaves behind: a draft, and an answer or an error. -/
structure Attempt (α : Type) where
  draft : Draft
  result : Except DraftError α

/-- Goes on with the answer of an attempt; after an error there is nothing to go on
with. -/
def Attempt.andThen {α β : Type} (a : Attempt α) (next : Draft → α → Attempt β) : Attempt β :=
  match a.result with
  | .ok x => next a.draft x
  | .error e => ⟨a.draft, .error e⟩

namespace Draft

/-- The order that the next item of the timeline takes. -/
def nextOrder (d : Draft) : Nat := d.past.length

/-! ## The tree -/

/-- The block that starts at an order, as far as it has grown. -/
def blockAt? (d : Draft) (start : Int) : Option Block :=
  (Node.allBlocks d.statements).find? fun b => b.startOrder == start

/-- The tree with the block that starts at an order changed. -/
def changed (d : Draft) (start : Int) (change : Block → Block) : List Node :=
  Node.changeAll start (Node.onBlock change) d.statements

/-- The tree with a node where it grows: in the current branch of the innermost open block,
or among the roots if no block is open. -/
def hung (d : Draft) (node : Node) : List Node :=
  match d.frames.block? with
  | none => d.statements ++ [node]
  | some frame => d.changed frame.content (Block.hang · node)

/-- The draft with one more item. -/
def append (d : Draft) (item : Statement) : Draft := { d with past := item :: d.past }

/-- The draft with one more item, for which there is a node in the tree. -/
def appendNode (d : Draft) (item : Statement) (node : Node) : Draft :=
  { d.append item with statements := d.hung node }

/-- How many branches the block that starts at an order has so far. -/
def branchCount (d : Draft) (start : Int) : Nat := ((d.blockAt? start).map fun b => b.branches.length).getD 0

/-- The current branch of the block that starts at an order. -/
def currentBranch (d : Draft) (start : Int) : Branch :=
  ((d.blockAt? start).bind fun b => b.branches.getLast?).getD {}

/-! ## Participants -/

/-- Mentions a participant. -/
def mention (d : Draft) (id : String) : Attempt Unit :=
  match d.roster.mention? id with
  | some roster => ⟨{ d with roster }, .ok ()⟩
  | none => ⟨d, .error .emptyId⟩

/-- Mentions participants in order, up to the first that is refused. -/
def mentionAll (d : Draft) : List String → Attempt Unit
  | [] => ⟨d, .ok ()⟩
  | id :: ids => (d.mention id).andThen fun d _ => d.mentionAll ids

/-- Declares a participant. -/
def register (d : Draft) (id : String) (kind : ParticipantKind) (label : Option String) :
    Attempt Unit :=
  match d.roster.declare? id kind label true with
  | some roster => ⟨{ d with roster }, .ok ()⟩
  | none => ⟨d, .error .emptyId⟩

/-- Puts a participant into the innermost open box, unless it is in a box already. -/
def joinBox (d : Draft) (id : String) : Draft :=
  match d.frames.box? with
  | none => d
  | some frame =>
    if d.boxes.any fun box => box.members.contains id then d
    else
      { d with
        boxes := d.boxes.modify frame.content fun box => { box with members := box.members ++ [id] } }

/-- The participant of an id; an unknown one is taken as implicit. -/
def participant (d : Draft) (id : String) : Participant := (d.roster.get? id).getD (.implicit id)

/-! ## Orders of creation and destruction -/

/-- A message at the given order meets what waits for a participant: it creates or
destroys the participant there. -/
def meet (d : Draft) (order : Int) (id : String) : Draft :=
  let created := (d.awaitingCreate.get? id).isSome
  let destroyed := (d.awaitingDestroy.get? id).isSome
  { d with
    roster := d.roster.modify id fun p =>
      { p with
        createdAt := if created then some order else p.createdAt
        destroyedAt := if destroyed then some order else p.destroyedAt }
    awaitingCreate := d.awaitingCreate.clear id
    awaitingDestroy := d.awaitingDestroy.clear id }

/-- A message that ends in a cross destroys its target, if nothing has before. -/
def crossOut (d : Draft) (m : Message) : Draft :=
  if m.arrow.isCross then
    { d with
      roster := d.roster.modify m.target.id fun p =>
        { p with destroyedAt := p.destroyedAt.or (some m.order) } }
  else d

/-- The draft with what a message does to the participants that wait for it. -/
def settle (d : Draft) (m : Message) : Draft :=
  ((d.meet m.order m.source.id).meet m.order m.target.id).crossOut m

/-! ## Activation -/

/-- An end of a message with an activation or a deactivation. -/
def mark (activate : Bool) (e : Endpoint) : Endpoint :=
  if activate then { e with activates := true } else { e with deactivates := true }

/-- The message with an activation folded into the end at a participant. The target
comes first, and an end that is marked already takes nothing more. -/
def fold? (m : Message) (id : String) (activate : Bool) : Option Message :=
  if m.target.id == id && m.target.isFree then some { m with target := mark activate m.target }
  else if m.source.id == id && m.source.isFree then
    some { m with source := mark activate m.source }
  else none

/-! ## Labels -/

/-- A label with a text added to it. -/
def growLabel (text : String) : Option String → Option String
  | none => some text
  | some label => if label.isEmpty then some text else some (label ++ " " ++ text)

/-- An item that opens a branch, with another label for that branch. -/
def relabelItem (label : Option String) : Statement → Statement
  | .blockStart s => .blockStart { s with block := { s.block with label } }
  | .blockBranch b => .blockBranch { b with label }
  | item => item

/-- Changes the item at a place of a timeline, which is given latest first. -/
def changeAt (place : Nat) (change : Statement → Statement) : List Statement → List Statement
  | [] => []
  | item :: older =>
    if older.length == place then change item :: older else item :: changeAt place change older

/-- The label of a block's current branch with a text added to it. -/
def grownLabel (d : Draft) (start : Int) (text : String) : Option String :=
  growLabel text (d.currentBranch start).label

/-- The draft with a text added to the label of a block's current branch. The label is written
to the branch in the tree and to the item that opens the branch. For the first branch this
is the opening of the block, which holds the block itself. -/
def growBlock (d : Draft) (start : Int) (text : String) : Draft :=
  { d with
    past := changeAt (d.currentBranch start).startOrder.toNat (relabelItem (d.grownLabel start text)) d.past
    statements := d.changed start (Block.relabel · (d.grownLabel start text)) }

end Draft

end Lifeline
