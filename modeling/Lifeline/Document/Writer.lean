import Lifeline.Diagram.Query
import Lifeline.Statement.LineKind
import Lifeline.Statement.Writer
/-!
# Writing a diagram

The canonical text of a diagram: the header, the numbering, the declarations with
boxed participants inside their boxes, the links, and the timeline with one level
more for every open block. A participant that the timeline creates is declared
there, with its links.

A text is first a list of lines with their depths; only then is it indented.
-/

namespace Lifeline

/-- How a diagram is laid out: spaces per level, and whether implicit participants are
declared. -/
structure Layout where
  indent : Nat := 4
  declareImplicit : Bool := true
  deriving DecidableEq, Repr

/-- A layout with the given indent, which must not be negative. -/
def Layout.ofIndent (indent : Int) (declareImplicit : Bool) : Except WriteError Layout :=
  if indent < 0 then .error (.negativeIndent indent)
  else .ok { indent := indent.toNat, declareImplicit }

/-- A line of a text before indentation. -/
structure Line where
  depth : Nat
  text : String
  deriving DecidableEq, Repr

/-- A line with its indentation. -/
def Line.indented (layout : Layout) (l : Line) : String :=
  String.ofList (List.replicate (layout.indent * l.depth) ' ') ++ l.text

namespace Diagram

/-! ## Declarations -/

/-- The declarations of the members of a box, each the first time its id is declared,
and the ids declared after them. `declared` are the ids declared before. -/
def memberLines (d : Diagram) : List String → List String → List Line × List String
  | [], declared => ([], declared)
  | id :: ids, declared =>
    match d.participant? id with
    | none => d.memberLines ids declared
    | some p =>
      if d.createdIds.contains id || declared.contains id then d.memberLines ids declared
      else
        let (lines, declared) := d.memberLines ids (id :: declared)
        (⟨2, p.declarationLine⟩ :: lines, declared)

/-- A box with the declarations inside it, and the ids declared after it. -/
def boxLines (d : Diagram) (box : Box) (declared : List String) : List Line × List String :=
  let (lines, declared) := d.memberLines box.members declared
  (⟨1, box.headingLine⟩ :: lines ++ [⟨1, endWord⟩], declared)

/-- The declarations of participants in order, with the ids declared and the boxes
drawn after them. A box is drawn where its first participant is due. -/
def columnLines (d : Diagram) (layout : Layout) :
    List Participant → List String → List Nat → List Line × List String × List Nat
  | [], declared, drawn => ([], declared, drawn)
  | p :: ps, declared, drawn =>
    if declared.contains p.id || d.createdIds.contains p.id then
      d.columnLines layout ps declared drawn
    else
      match d.boxOf? p.id with
      | some (place, box) =>
        let (lines, declared) := d.boxLines box declared
        let (more, declared, drawn) := d.columnLines layout ps declared (place :: drawn)
        (lines ++ more, declared, drawn)
      | none =>
        if !p.explicit && !layout.declareImplicit then d.columnLines layout ps declared drawn
        else
          let (more, declared, drawn) := d.columnLines layout ps (p.id :: declared) drawn
          (⟨1, p.declarationLine⟩ :: more, declared, drawn)

/-- The boxes that have not been drawn, given with their places. -/
def leftoverLines (d : Diagram) (drawn : List Nat) : List (Box × Nat) → List String → List Line
  | [], _ => []
  | (box, place) :: boxes, declared =>
    if drawn.contains place then d.leftoverLines drawn boxes declared
    else
      let (lines, declared) := d.boxLines box declared
      lines ++ d.leftoverLines drawn boxes declared

/-- All declarations and boxes. -/
def declarationLines (d : Diagram) (layout : Layout) : List Line :=
  let (lines, declared, drawn) := d.columnLines layout d.participants [] []
  lines ++ d.leftoverLines drawn d.boxes.zipIdx declared

/-- The links of the participants that are not created in the timeline. -/
def linkLines (d : Diagram) : List Line :=
  (d.participants.filter fun p => !d.createdIds.contains p.id).flatMap fun p =>
    p.linkLines.map fun text => ⟨1, text⟩

/-! ## The timeline -/

/-- A directive. A creation declares its participant, with its links. -/
def directiveLines (d : Diagram) (depth : Nat) (x : Directive) : List Line :=
  match x.kind with
  | .create =>
    let p := (d.participant? x.id).getD { id := x.id }
    (⟨depth, "create " ++ p.declarationLine⟩ :: p.linkLines.map fun text => ⟨depth, text⟩)
  | kind => [⟨depth, kind.word ++ " " ++ x.id⟩]

/-- The keyword of a further branch: that of the innermost open block if it has one. -/
def branchWord (openKinds : List BlockKind) (keyword : String) : String :=
  ((openKinds.head?.bind BlockKind.branchKeyword?).getD keyword)

/-- The ends of blocks that are open, innermost first. -/
def closingLines : Nat → List Line
  | 0 => []
  | depth + 1 => ⟨depth + 1, endWord⟩ :: closingLines depth

/-- The items of a timeline, inside open blocks of the given kinds, innermost first. An
end without an open block is left out, and blocks that are still open at the end of
the timeline are closed there. -/
def timelineLines (d : Diagram) : List BlockKind → List Statement → Except WriteError (List Line)
  | openKinds, [] => .ok (closingLines openKinds.length)
  | openKinds, item :: items =>
    let depth := openKinds.length + 1
    match item with
    | .message m => (d.timelineLines openKinds items).map (⟨depth, m.line⟩ :: ·)
    | .note n =>
      match n.line with
      | .error e => .error e
      | .ok text => (d.timelineLines openKinds items).map (⟨depth, text⟩ :: ·)
    | .directive x => (d.timelineLines openKinds items).map (d.directiveLines depth x ++ ·)
    | .blockStart s =>
      (d.timelineLines (s.block.kind :: openKinds) items).map (⟨depth, s.block.openingLine⟩ :: ·)
    | .blockBranch b =>
      (d.timelineLines openKinds items).map
        (⟨max openKinds.length 1, joinParts [some (branchWord openKinds b.keyword), b.label]⟩ :: ·)
    | .blockEnd _ =>
      match openKinds with
      | [] => d.timelineLines [] items
      | _ :: outer => (d.timelineLines outer items).map (⟨outer.length + 1, endWord⟩ :: ·)
    | item => .error (.notPlaced item.kindName)

/-! ## The text -/

/-- The lines of a diagram. -/
def lines (d : Diagram) (layout : Layout) : Except WriteError (List Line) :=
  (d.timelineLines [] d.timeline).map fun timeline =>
    ⟨0, headerWord⟩ :: (if d.autonumber then [⟨1, autonumberWord⟩] else []) ++
      d.declarationLines layout ++ d.linkLines ++ timeline

/-- Indented lines as a text, each closed by a newline. -/
def textOf (layout : Layout) (lines : List Line) : String :=
  String.join (lines.map fun l => l.indented layout ++ "\n")

/-- The text of a diagram. -/
def write (d : Diagram) (layout : Layout) : Except WriteError String :=
  (d.lines layout).map (textOf layout)

end Diagram

end Lifeline
