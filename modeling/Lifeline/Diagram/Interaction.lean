import Lifeline.Diagram.Multigraph
import Lifeline.Diagram.Query
/-!
# Who talks to whom

The interaction graph of a diagram has its participants as nodes and its messages
as edges. Two messages with the same ends and the same order are one edge, and in the same
way a participant listed twice is one node.
-/

namespace Lifeline

/-- Participants and messages as a multigraph, and the ids that a note is about. -/
structure InteractionGraph (G : Type := ListGraph) where
  digraph : G
  noted : List String := []

namespace InteractionGraph

open Multigraph (empty addNode addEdge contains)

variable {G : Type} [Multigraph G]

/-- The multigraph with a node for an id that has none yet. -/
def ensureNode (g : G) (id : String) : G := if contains g id then g else addNode g { id, label := id }

/-- The multigraph with a message. -/
def addMessage (g : G) (m : Message) : G :=
  addEdge (ensureNode (ensureNode g m.source.id) m.target.id)
    ⟨m.source.id, m.target.id, m.order, m.arrow, m.text⟩

/-- A participant of a diagram as a node. -/
def nodeOf (d : Diagram) (p : Participant) : GraphNode :=
  { id := p.id, label := p.displayLabel, kind := p.kind, explicit := p.explicit
    box := (d.boxOf? p.id).bind fun (_, box) => box.label }

/-- The participants of a diagram as the nodes of a multigraph. -/
def ofParticipants (d : Diagram) : G := d.participants.foldl (fun g p => addNode g (nodeOf d p)) empty

/-- The interaction graph of a diagram. -/
def ofDiagram (d : Diagram) : InteractionGraph G :=
  { digraph := d.messages.foldl addMessage (ofParticipants d)
    noted := sortedSet (d.notes.flatMap Note.targets) }

/-- The participants as nodes, in order. -/
def nodes (g : InteractionGraph G) : List GraphNode := Multigraph.nodes g.digraph

/-- The messages as edges. -/
def edges (g : InteractionGraph G) : List GraphEdge := Multigraph.edges g.digraph

/-- How many messages a participant receives. -/
def inDegree (g : InteractionGraph G) (id : String) : Nat :=
  if contains g.digraph id then Multigraph.inDegree g.digraph id else 0

/-- How many messages a participant sends. -/
def outDegree (g : InteractionGraph G) (id : String) : Nat :=
  if contains g.digraph id then Multigraph.outDegree g.digraph id else 0

/-- How many messages a participant sends and receives; one to itself counts twice. -/
def degree (g : InteractionGraph G) (id : String) : Nat := Multigraph.degree g.digraph id

/-- The participants without a message and without a note, in order. -/
def isolated (g : InteractionGraph G) : List String :=
  (g.nodes.map GraphNode.id).filter fun id => g.degree id == 0 && !g.noted.contains id

/-- The edges from one participant to another, by order. -/
def interactions (g : InteractionGraph G) (source target : String) : List GraphEdge :=
  (Multigraph.edgesBetween g.digraph source target).mergeSort fun a b => decide (a.order ≤ b.order)

/-- The first of some ids with the greatest degree, given a best one among the ids
before them. -/
def busiestFrom (g : InteractionGraph G) : Option String → List String → Option String
  | best, [] => best
  | none, id :: ids => g.busiestFrom (some id) ids
  | some best, id :: ids =>
    g.busiestFrom (some (if g.degree best < g.degree id then id else best)) ids

/-- The first participant with the most messages. -/
def busiest (g : InteractionGraph G) : Option String := g.busiestFrom none (g.nodes.map GraphNode.id)

/-- The participants that one sends messages to, ascending. -/
def neighbours (g : InteractionGraph G) (id : String) : List String := sortedSet (Multigraph.successors g.digraph id)

/-- Every participant with those it sends messages to, by id. -/
def adjacency (g : InteractionGraph G) : List (String × List String) :=
  ((g.nodes.map fun n => (n.id, g.neighbours n.id)).mergeSort fun a b => decide (a.1 ≤ b.1))

end InteractionGraph

end Lifeline
