import Lifeline.Diagram.Basic
/-!
# Trees that change in place

A node is known by its order, and a block by the order of its start. Whoever knows the
order of a node can change it, wherever it stands in the tree (`Node.changeAll`). What is
added to a block goes to its current branch, which is the last one.
-/

namespace Lifeline

/-- The branches with the last one changed. -/
def Branch.changeLast (change : Branch → Branch) : List Branch → List Branch
  | [] => []
  | [b] => [change b]
  | b :: bs => b :: changeLast change bs

/-- The branches with a node at the end of the last one. -/
def Branch.hang (node : Node) : List Branch → List Branch :=
  Branch.changeLast fun b => { b with statements := b.statements ++ [node] }

namespace Block

/-- A block as it is opened, with its first branch. -/
def opened (kind : BlockKind) (label color : Option String) (order : Int) : Block :=
  { kind, label, color, branches := [{ label, startOrder := order }], startOrder := order }

/-- A block with a node at the end of its current branch. -/
def hang (b : Block) (node : Node) : Block := { b with branches := Branch.hang node b.branches }

/-- A block with a further branch. -/
def addBranch (b : Block) (label : Option String) (order : Int) : Block :=
  { b with branches := b.branches ++ [{ label, startOrder := order }] }

/-- A block with another label for its current branch. The label of the first branch is
that of the block as well. -/
def relabel (b : Block) (label : Option String) : Block :=
  { b with
    label := if b.branches.length == 1 then label else b.label
    branches := Branch.changeLast (fun c => { c with label }) b.branches }

/-- A block that ends at an order. -/
def close (b : Block) (order : Int) : Block := { b with endOrder := some order }

/-- A block that has the given end if it is still open. -/
def endBy (stop : Option Int) (b : Block) : Block := { b with endOrder := b.endOrder.or stop }

/-- Whether a block is still open. -/
def isOpen (b : Block) : Bool := b.endOrder.isNone

end Block

/-! ## Changes everywhere in a tree -/

mutual

/-- A node changed by `f`, and so is everything inside it. -/
def Node.map (f : Node → Node) : Node → Node
  | .message m => f (.message m)
  | .note n => f (.note n)
  | .directive x => f (.directive x)
  | .block b => f (.block (b.mapInside f))
termination_by structural n => n

/-- A block with everything inside it changed. -/
def Block.mapInside (f : Node → Node) : Block → Block
  | ⟨kind, label, color, branches, start, stop⟩ => ⟨kind, label, color, Branch.mapAll f branches, start, stop⟩
termination_by structural b => b

/-- A branch with everything in it changed. -/
def Branch.map (f : Node → Node) : Branch → Branch
  | ⟨label, start, statements⟩ => ⟨label, start, Node.mapAll f statements⟩
termination_by structural b => b

/-- Branches with everything in them changed. -/
def Branch.mapAll (f : Node → Node) : List Branch → List Branch
  | [] => []
  | b :: bs => b.map f :: Branch.mapAll f bs
termination_by structural bs => bs

/-- Nodes with everything in them changed. -/
def Node.mapAll (f : Node → Node) : List Node → List Node
  | [] => []
  | n :: ns => n.map f :: Node.mapAll f ns
termination_by structural ns => ns

end

/-- A change of what has the given order. -/
def Node.at (order : Int) (change : Node → Node) (n : Node) : Node := if n.order == order then change n else n

/-- A tree with the node of an order changed. -/
def Node.changeAll (order : Int) (change : Node → Node) (ns : List Node) : List Node :=
  Node.mapAll (Node.at order change) ns

/-- A change of blocks as a change of nodes. -/
def Node.onBlock (change : Block → Block) : Node → Node
  | .block b => .block (change b)
  | n => n

/-- A tree whose open blocks have the given end. -/
def Node.endAll (stop : Option Int) (ns : List Node) : List Node :=
  Node.mapAll (Node.onBlock (Block.endBy stop)) ns

/-! ## The blocks of a tree -/

mutual

/-- The blocks of a node, each before those inside it. -/
def Node.blocks : Node → List Block
  | .block b => b :: b.inner
  | _ => []
termination_by structural n => n

/-- The blocks inside a block. -/
def Block.inner : Block → List Block
  | ⟨_, _, _, branches, _, _⟩ => Branch.allBlocks branches
termination_by structural b => b

/-- The blocks in a branch. -/
def Branch.blocks : Branch → List Block
  | ⟨_, _, statements⟩ => Node.allBlocks statements
termination_by structural b => b

/-- The blocks in several branches. -/
def Branch.allBlocks : List Branch → List Block
  | [] => []
  | b :: bs => b.blocks ++ Branch.allBlocks bs
termination_by structural bs => bs

/-- The blocks of several nodes. -/
def Node.allBlocks : List Node → List Block
  | [] => []
  | n :: ns => n.blocks ++ Node.allBlocks ns
termination_by structural ns => ns

end

end Lifeline
