import Lifeline.Diagram.Equality
import Lifeline.Document.Reader
import Lifeline.Document.Writer
import Lifeline.Text.Twofold
/-!
# Formatting a source

A source is formatted by reading it and writing the diagram back. The indent that is
asked for may be any number, but the lines of a text must fit into memory. A diagram
whose links hold halves of surrogate pairs is written twofold.
-/

namespace Lifeline

/-- Why a source cannot be formatted. -/
inductive FormatError where
  | read (error : ReadError)
  | write (error : WriteError)
  deriving DecidableEq, Repr

/-- The wording of an error. -/
def FormatError.message : FormatError → String
  | .read error => error.message
  | .write error => error.message

/-! ## Room for the indentation -/

/-- The least indent for which there is no room in memory. -/
def Layout.roomLimit : Nat := Nat.pow 2 32

/-- Why a line cannot be indented in a layout: the indent is too large for a text in
memory, or for the length of any text. -/
def Layout.fault? (layout : Layout) : Option WriteError :=
  if layout.indent < roomLimit then none
  else if layout.indent < indexLimit then some .noRoom
  else some .tooWide

/-- Whether a statement has a place in a timeline. -/
def Statement.isPlaced : Statement → Bool
  | .declaration _ => false
  | .boxStart _ => false
  | .links _ => false
  | .autonumber => false
  | _ => true

/-- Whether a statement is the end of a block. -/
def Statement.isBlockEnd : Statement → Bool
  | .blockEnd _ => true
  | _ => false

namespace Diagram

/-- Whether the first line after the header is reached and indented. At the start of
a timeline the ends of blocks are left out. -/
def startsIndented (d : Diagram) (layout : Layout) : Bool :=
  d.autonumber || !(d.declarationLines layout).isEmpty || !d.linkLines.isEmpty ||
    (d.timeline.find? fun item => !item.isBlockEnd).any Statement.isPlaced

/-- Writes a diagram if there is room for its indentation. -/
def writeWithin (d : Diagram) (layout : Layout) : Except WriteError String :=
  match layout.fault? with
  | none => d.write layout
  | some e => if d.startsIndented layout then .error e else d.write layout

/-- Writes a diagram with the given indent. -/
def writeWith (d : Diagram) (indent : Int) (declareImplicit : Bool) : Except WriteError String :=
  match Layout.ofIndent indent declareImplicit with
  | .error e => .error e
  | .ok layout => d.writeWithin layout

/-! ## Halves -/

/-- Writes a diagram twofold. -/
def writeTwofold (d : Diagram) (layout : Layout) : Except WriteError Text.Twofold :=
  match (d.standing Text.Half.first).writeWithin layout,
      (d.standing Text.Half.second).writeWithin layout with
  | .ok first, .ok second => .ok ⟨first, second⟩
  | .error e, _ => .error e
  | _, .error e => .error e

end Diagram

/-! ## Formatting -/

/-- The canonical text of a source when `stand` says what is written for a half. -/
def formatStanding (stand : Text.Half → Char) (source : String) (indent : Int) (strict : Bool) :
    Except FormatError String :=
  match Diagram.read source strict with
  | .error e => .error (.read e)
  | .ok diagram => ((diagram.standing stand).writeWith indent true).mapError .write

/-- The canonical text of a source. -/
def formatText (source : String) (indent : Int) (strict : Bool) : Except FormatError String :=
  formatStanding Text.Half.replaced source indent strict

/-! ## Round trips -/

/-- What becomes of a diagram that is written, read back and written again: both
texts, and whether the diagram that was read back is the same, as it is or with all
participants declared. -/
structure RoundTrip where
  once : String
  twice : String
  same : Bool
  sameDeclared : Bool
  deriving DecidableEq, Repr

/-- Writes a diagram, reads it back and writes it again. -/
def Diagram.roundTrip (d : Diagram) (layout : Layout) : Except FormatError RoundTrip := do
  let once ← (d.writeWithin layout).mapError .write
  let again ← (Diagram.read once false).mapError .read
  let twice ← (again.writeWithin layout).mapError .write
  return { once, twice, same := d.Same again, sameDeclared := d.declared.Same again.declared }

end Lifeline
