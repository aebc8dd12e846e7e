import Lifeline.Diagram.Basic
/-!
# Multigraphs

A directed multigraph has a node for every id, and between two nodes an edge for every key.
`Multigraph` lists what can be done with one, and what is relied on of it: nodes keep the order
in which they came, a node or an edge that is there already takes the later data, and degrees
count edges, a loop twice. `ListGraph` keeps nodes and edges in two lists.
-/

namespace Lifeline

/-- A participant as a node, with the label of the box it is in. -/
structure GraphNode where
  id : String
  label : String
  kind : ParticipantKind := .participant
  explicit : Bool := false
  box : Option String := none
  deriving DecidableEq, Repr

/-- A message as an edge. Its key is its order. -/
structure GraphEdge where
  source : String
  target : String
  order : Int
  arrow : Arrow
  text : Option String
  deriving DecidableEq, Repr

/-- Whether two nodes have the same id. -/
def GraphNode.sameId (a b : GraphNode) : Bool := a.id == b.id

/-- Whether two edges have the same ends and the same key. -/
def GraphEdge.sameKey (a b : GraphEdge) : Bool :=
  a.source == b.source && a.target == b.target && a.order == b.order

/-- Replaces the elements that are the same as the given one, or puts it at the end. -/
def putBy {α : Type} (same : α → α → Bool) (items : List α) (item : α) : List α :=
  if items.any (same item) then items.map fun x => if same item x then item else x
  else items ++ [item]

/-- The directed multigraphs of a type: the operations on them, and their laws. Edges are listed
in an order of the graph's own. -/
class Multigraph (G : Type) where
  empty : G
  addNode : G → GraphNode → G
  addEdge : G → GraphEdge → G
  contains : G → String → Bool
  nodes : G → List GraphNode
  edges : G → List GraphEdge
  edgesBetween : G → String → String → List GraphEdge
  successors : G → String → List String
  inDegree : G → String → Nat
  outDegree : G → String → Nat
  degree : G → String → Nat
  contains_eq : ∀ g id, contains g id = (nodes g).any fun n => n.id == id
  nodes_empty : nodes empty = []
  nodes_addNode : ∀ g n, nodes (addNode g n) = putBy GraphNode.sameId (nodes g) n
  nodes_addEdge : ∀ g e, contains g e.source → contains g e.target → nodes (addEdge g e) = nodes g
  edges_empty : edges empty = []
  edges_addNode : ∀ g n, edges (addNode g n) = edges g
  edges_addEdge : ∀ g e, (edges (addEdge g e)).Perm (putBy GraphEdge.sameKey (edges g) e)
  edgesBetween_eq : ∀ g a b, edgesBetween g a b = (edges g).filter fun e => e.source == a && e.target == b
  mem_successors : ∀ {g a b}, b ∈ successors g a ↔ ∃ e ∈ edges g, e.source = a ∧ e.target = b
  inDegree_eq : ∀ {g id}, contains g id → inDegree g id = (edges g).countP fun e => e.target == id
  outDegree_eq : ∀ {g id}, contains g id → outDegree g id = (edges g).countP fun e => e.source == id
  degree_eq : ∀ {g id}, contains g id → degree g id = inDegree g id + outDegree g id

/-- A multigraph as a list of nodes and a list of edges. -/
structure ListGraph where
  nodes : List GraphNode := []
  edges : List GraphEdge := []

instance : Multigraph ListGraph where
  empty := {}
  addNode g n := { g with nodes := putBy GraphNode.sameId g.nodes n }
  addEdge g e := { g with edges := putBy GraphEdge.sameKey g.edges e }
  contains g id := g.nodes.any fun n => n.id == id
  nodes := ListGraph.nodes
  edges := ListGraph.edges
  edgesBetween g a b := g.edges.filter fun e => e.source == a && e.target == b
  successors g a := (g.edges.filter fun e => e.source == a).map GraphEdge.target
  inDegree g id := g.edges.countP fun e => e.target == id
  outDegree g id := g.edges.countP fun e => e.source == id
  degree g id := (g.edges.countP fun e => e.target == id) + g.edges.countP fun e => e.source == id
  contains_eq _ _ := rfl
  nodes_empty := rfl
  nodes_addNode _ _ := rfl
  nodes_addEdge _ _ _ _ := rfl
  edges_empty := rfl
  edges_addNode _ _ := rfl
  edges_addEdge _ _ := .rfl
  edgesBetween_eq _ _ _ := rfl
  mem_successors := by simp [and_assoc]
  inDegree_eq _ := rfl
  outDegree_eq _ := rfl
  degree_eq _ := rfl

end Lifeline
