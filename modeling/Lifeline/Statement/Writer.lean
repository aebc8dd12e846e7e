import Lifeline.Diagram.Basic
import Lifeline.Text.Inline
/-!
# Writing a statement

Each part of a diagram as it stands on a line, without indentation.
-/

namespace Lifeline

/-- Why a diagram cannot be written. -/
inductive WriteError where
  | negativeIndent (indent : Int)
  | noTarget
  | notPlaced (name : String)
  | noRoom
  | tooWide
  deriving DecidableEq, Repr

/-- The wording of an error. -/
def WriteError.message : WriteError → String
  | .negativeIndent indent => s!"indent must be non-negative, got {indent}"
  | .noTarget => "list index out of range"
  | .notPlaced name => s!"unhandled timeline item: StatementKind.{name}"
  | .noRoom => ""
  | .tooWide => "cannot fit 'int' into an index-sized integer"

/-- The parts of a line that are there and not empty, with a space between them. -/
def joinParts (parts : List (Option String)) : String :=
  " ".intercalate ((parts.filterMap id).filter fun s => !s.isEmpty)

/-- A line with the text that follows a colon, if there is one. -/
def withText (head : String) : Option String → String
  | none => head
  | some text => if text.isEmpty then head ++ ":" else head ++ ": " ++ Text.escaped text

/-- The declaration of a participant, with its label if that is not empty. -/
def Participant.declarationLine (p : Participant) : String :=
  let head := p.kind.keyword ++ " " ++ p.id
  match p.label with
  | some label => if label.isEmpty then head else head ++ " as " ++ label
  | none => head

/-- A link of a participant. -/
def Participant.linkLine (p : Participant) (link : Link) : String :=
  s!"link {p.id}: {link.label.text} @ {link.url.text}"

/-- The links of a participant, a line each. -/
def Participant.linkLines (p : Participant) : List String := p.links.map p.linkLine

/-- The heading of a box. A label that would lose its first word as the colour is kept
by writing that there is none. -/
def Box.headingLine (b : Box) : String :=
  let color := match b.color with
    | some color => some color
    | none => if Color.labelStartsWithColor b.label then some Color.transparent else none
  joinParts [some "box", color, b.label]

/-- The mark of an end of a message. -/
def Endpoint.mark (e : Endpoint) : String :=
  if e.activates then "+" else if e.deactivates then "-" else ""

/-- A message. -/
def Message.line (m : Message) : String :=
  withText (m.source.mark ++ m.source.id ++ m.arrow.token ++ m.target.mark ++ m.target.id) m.text

/-- The words for a placement. -/
def Placement.words : Placement → String
  | .left => "left of"
  | .right => "right of"
  | .over => "over"

/-- The targets of a note as they are written: the first, or all of a note over
participants. -/
def Note.targetText? (n : Note) : Option String :=
  match n.placement with
  | .over => some (",".intercalate n.targets)
  | _ => n.targets.head?

/-- A note. One beside a participant needs a target. -/
def Note.line (n : Note) : Except WriteError String :=
  match n.targetText? with
  | some targets => .ok (withText ("Note " ++ n.placement.words ++ " " ++ targets) (some n.text))
  | none => .error .noTarget

/-- The opening of a block, with the colour of a rectangle or the label of any other. -/
def Block.openingLine (b : Block) : String :=
  joinParts [some b.kind.keyword, if b.kind == .rect then b.color else b.label]

/-- The word for a directive. -/
def DirectiveKind.word : DirectiveKind → String
  | .activate => "activate"
  | .deactivate => "deactivate"
  | .create => "create"
  | .destroy => "destroy"

/-- The name of the kind of a statement. -/
def Statement.kindName : Statement → String
  | .message _ => "Message"
  | .note _ => "Note"
  | .blockStart _ => "BlockStart"
  | .blockBranch _ => "BlockBranch"
  | .blockEnd _ => "BlockEnd"
  | .directive _ => "Directive"
  | .declaration _ => "Declaration"
  | .boxStart _ => "BoxStart"
  | .links _ => "Link"
  | .autonumber => "Autonumber"

end Lifeline
