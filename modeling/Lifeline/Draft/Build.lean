import Lifeline.Draft.Basic
/-!
# The diagram of a draft

A diagram can be taken from a draft at any time. It shows the timeline and the tree as they
stand, with an end for what is still open.
-/

namespace Lifeline

/-- An item of a timeline with the block of the tree that it opens. -/
def Statement.fillIn (blocks : List Block) : Statement → Statement
  | .blockStart s =>
    .blockStart { s with block := (blocks.find? fun b => b.startOrder == s.order).getD s.block }
  | item => item

namespace Draft

/-- The tree of a draft, its open blocks with the given end. -/
def tree (d : Draft) (stop : Option Int) : List Node := Node.endAll stop d.statements

/-- The timeline of a draft, earliest first, its open blocks with the given end. An item that
opens a block holds the block of the tree. -/
def timeline (d : Draft) (stop : Option Int) : List Statement :=
  let blocks := Node.allBlocks (d.tree stop)
  d.past.reverse.map (Statement.fillIn blocks)

/-- The diagram as it stands. A block that is still open ends where the timeline does,
and a creation or destruction that met no message takes the order of its
directive. -/
def build (d : Draft) : Diagram :=
  let stop : Option Int := some d.nextOrder
  { participants := d.roster.participants.map fun p =>
      { p with
        createdAt := p.createdAt.or (d.awaitingCreate.get? p.id)
        destroyedAt := p.destroyedAt.or (d.awaitingDestroy.get? p.id) }
    timeline := d.timeline stop
    statements := d.tree stop
    boxes := d.boxes
    autonumber := d.autonumber }

/-- The blocks that `build` ends, outermost first: their kinds and orders. -/
def openBlocks (d : Draft) : List (BlockKind × Int) :=
  ((Node.allBlocks d.statements).filter Block.isOpen).map fun b => (b.kind, b.startOrder)

end Draft

end Lifeline
