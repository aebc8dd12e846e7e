import Lifeline.Arrow
import Lifeline.Color
import Lifeline.Diagram.BlockKind
import Lifeline.Text.CodePoint
/-!
# Diagrams

A sequence diagram has participants in the order of their columns, and a
timeline of what happens. The timeline is flat: a block is opened by one item,
continued by others and closed by one. The same blocks, with what stands in
their branches, form a tree. Boxes draw neighbouring columns together.

Every item of a timeline carries its order, which is its place from 0 on; an
item that has no place yet has order -1.
-/

namespace Lifeline

/-- How a participant is drawn. -/
inductive ParticipantKind where
  | participant
  | actor
  deriving DecidableEq, Repr

/-- The word that declares a participant of a kind. -/
def ParticipantKind.keyword : ParticipantKind → String
  | .participant => "participant"
  | .actor => "actor"

/-- The kind that a word declares. -/
def ParticipantKind.ofKeyword? (word : String) : Option ParticipantKind :=
  if word == "participant" then some .participant
  else if word == "actor" then some .actor
  else none

/-- A labelled address attached to a participant. -/
structure Link where
  label : Text.Points
  url : Text.Points
  deriving DecidableEq, Repr

/-- A participant. It is explicit once it has been declared, and implicit as long as
it has only been mentioned. `createdAt` and `destroyedAt` are orders of the
timeline. -/
structure Participant where
  id : String
  kind : ParticipantKind := .participant
  label : Option String := none
  explicit : Bool := true
  createdAt : Option Int := none
  destroyedAt : Option Int := none
  links : List Link := []
  deriving DecidableEq, Repr

/-- A participant known only by its mention. -/
def Participant.implicit (id : String) : Participant := { id, explicit := false }

/-- What a participant is shown as: its label, or its id if the label is missing or
empty. -/
def Participant.displayLabel (p : Participant) : String :=
  match p.label with
  | some label => if label.isEmpty then p.id else label
  | none => p.id

/-- One end of a message: a participant, and whether the message activates or
deactivates it. -/
structure Endpoint where
  id : String
  activates : Bool := false
  deactivates : Bool := false
  deriving DecidableEq, Repr

/-- Whether a message leaves the activation of an end alone. -/
def Endpoint.isFree (e : Endpoint) : Bool := !e.activates && !e.deactivates

/-- A message from one participant to another, or to itself. -/
structure Message where
  source : Endpoint
  target : Endpoint
  arrow : Arrow := .standard
  text : Option String := none
  order : Int := -1
  deriving DecidableEq, Repr

/-- Whether a participant is at one end of a message. -/
def Message.involves (m : Message) (id : String) : Bool := id == m.source.id || id == m.target.id

/-- Where a note is placed. -/
inductive Placement where
  | left
  | right
  | over
  deriving DecidableEq, Repr

/-- A note beside one participant or over some. -/
structure Note where
  placement : Placement
  targets : List String
  text : String := ""
  order : Int := -1
  deriving DecidableEq, Repr

/-- What a directive does to a participant. -/
inductive DirectiveKind where
  | activate
  | deactivate
  | create
  | destroy
  deriving DecidableEq, Repr

/-- A change of a participant that is a statement of its own. -/
structure Directive where
  kind : DirectiveKind
  id : String
  order : Int := -1
  deriving DecidableEq, Repr

mutual

/-- What stands in a branch of a block, or outside all blocks. -/
inductive Node where
  | message (m : Message)
  | note (n : Note)
  | directive (d : Directive)
  | block (b : Block)

/-- A block with its branches, the first of which begins where the block does. It has
no end as long as it is open. -/
structure Block where
  kind : BlockKind
  label : Option String := none
  color : Option String := none
  branches : List Branch := []
  startOrder : Int := -1
  endOrder : Option Int := none

/-- A branch of a block. -/
structure Branch where
  label : Option String := none
  startOrder : Int := -1
  statements : List Node := []

end

/-- Columns drawn together. -/
structure Box where
  label : Option String := none
  color : Option String := none
  members : List String := []
  deriving DecidableEq, Repr

/-- The opening of a block in a timeline. -/
structure BlockStart where
  block : Block
  order : Int := -1

/-- The beginning of a further branch in a timeline. -/
structure BlockBranch where
  keyword : String
  label : Option String := none
  order : Int := -1
  blockOrder : Int := -1
  branchIndex : Int := 0
  deriving DecidableEq, Repr

/-- The end of a block in a timeline. -/
structure BlockEnd where
  order : Int := -1
  blockOrder : Int := -1
  deriving DecidableEq, Repr

/-- The declaration of a participant. -/
structure Declaration where
  id : String
  kind : ParticipantKind := .participant
  label : Option String := none
  created : Bool := false
  deriving DecidableEq, Repr

/-- Links attached to a participant. -/
structure LinkList where
  id : String
  links : List Link := []
  deriving DecidableEq, Repr

/-- A statement of a diagram. The first six kinds have a place in a timeline; the
others only change the participants, the boxes or the numbering. -/
inductive Statement where
  | message (m : Message)
  | note (n : Note)
  | blockStart (s : BlockStart)
  | blockBranch (b : BlockBranch)
  | blockEnd (e : BlockEnd)
  | directive (d : Directive)
  | declaration (d : Declaration)
  | boxStart (h : Color.Heading)
  | links (l : LinkList)
  | autonumber

/-- What was wrong with a line. -/
inductive DiagnosticKind where
  | unrecognizedStatement
  | unbalancedBlock
  | invalidBranchContext
  deriving DecidableEq, Repr

/-- A problem with one line of a source, from which reading could go on. -/
structure Diagnostic where
  kind : DiagnosticKind
  line : Int
  message : String
  source : String := ""
  deriving DecidableEq, Repr

/-- A diagnostic as one line of text. -/
def Diagnostic.text (d : Diagnostic) : String := s!"line {d.line}: {d.message}"

/-- A sequence diagram. -/
structure Diagram where
  participants : List Participant := []
  timeline : List Statement := []
  statements : List Node := []
  boxes : List Box := []
  autonumber : Bool := false
  diagnostics : List Diagnostic := []

/-- The order of what stands in a branch; that of a block is where it begins. -/
def Node.order : Node → Int
  | .message m => m.order
  | .note n => n.order
  | .directive d => d.order
  | .block b => b.startOrder

/-- What stands in the branches of a block, in order. -/
def Block.statements (b : Block) : List Node := b.branches.flatMap Branch.statements

/-- Whether an order lies strictly inside a block; an open block has no upper bound. -/
def Block.contains (b : Block) (order : Int) : Bool :=
  b.startOrder < order && b.endOrder.all fun stop => order < stop

/-! ## Diagrams without halves

Only links can hold halves of surrogate pairs. A diagram in which a character stands
in for every half can be written as a string. -/

/-- A link with characters in the places of its halves. -/
def Link.standing (stand : Text.Half → Char) (l : Link) : Link :=
  ⟨l.label.standing stand, l.url.standing stand⟩

/-- A participant with characters in the places of its halves. -/
def Participant.standing (stand : Text.Half → Char) (p : Participant) : Participant :=
  { p with links := p.links.map (Link.standing stand) }

/-- A statement with characters in the places of its halves. -/
def Statement.standing (stand : Text.Half → Char) : Statement → Statement
  | .links l => .links { l with links := l.links.map (Link.standing stand) }
  | s => s

/-- A diagram with characters in the places of its halves. -/
def Diagram.standing (stand : Text.Half → Char) (d : Diagram) : Diagram :=
  { d with participants := d.participants.map (Participant.standing stand)
           timeline := d.timeline.map (Statement.standing stand) }

end Lifeline
