import Lifeline.Diagram.Roster
import Lifeline.Proofs.History
/-!
# The tree and the timeline

The tree of a draft and its timeline are two views of one diagram: written out in
order, the tree is the timeline, and the blocks that are still open are its last path.
The tree grows along the timeline, so the proof follows `Growth`, one item at a time.
-/

namespace Lifeline

open History

/-! ## Growing along a timeline -/

/-- A tree that still grows: its finished roots, and the open blocks on its last path,
innermost first. -/
structure Growth where
  roots : List Node := []
  path : List Block := []

namespace Growth

/-- Hangs a node where the tree grows. -/
def hang (g : Growth) (node : Node) : Growth :=
  match g.path with
  | [] => { g with roots := g.roots ++ [node] }
  | b :: outer => { g with path := b.hang node :: outer }

/-- The tree after one more item of the timeline. -/
def step (g : Growth) : Statement → Growth
  | .message m => g.hang (.message m)
  | .note n => g.hang (.note n)
  | .directive d => g.hang (.directive d)
  | .blockStart s =>
    { g with path := .opened s.block.kind s.block.label s.block.color s.order :: g.path }
  | .blockBranch b =>
    match g.path with
    | [] => g
    | inner :: outer => { g with path := inner.addBranch b.label b.order :: outer }
  | .blockEnd e =>
    match g.path with
    | [] => g
    | inner :: outer =>
      ({ g with path := outer } : Growth).hang (.block { inner with endOrder := some e.order })
  | _ => g

/-- The tree of what has happened, given latest first. -/
def ofPast : List Statement → Growth
  | [] => {}
  | item :: older => (ofPast older).step item

/-- An open block hung into the blocks around it, innermost first, each with the given
end. -/
def enclose (stop : Option Int) (inner : Block) : List Block → Node
  | [] => .block { inner with endOrder := stop }
  | b :: outer => enclose stop (b.hang (.block { inner with endOrder := stop })) outer

/-- The whole tree, its open blocks with the given end. -/
def nodes (g : Growth) (stop : Option Int) : List Node :=
  match g.path with
  | [] => g.roots
  | inner :: outer => g.roots ++ [enclose stop inner outer]

end Growth

/-! ## Writing a tree out -/

/-- The item that opens a further branch of a block. -/
def Branch.opening (kind : BlockKind) (start : Int) (index : Nat) (b : Branch) : Statement :=
  .blockBranch { keyword := kind.branchKeyword?.getD "", label := b.label, order := b.startOrder
                 blockOrder := start, branchIndex := index }

/-- The item that closes a block. -/
def Block.closing (start stop : Int) : Statement := .blockEnd { order := stop, blockOrder := start }

mutual

/-- A node written out: a block opens, its branches follow, and it closes if it has an end. -/
def Node.expand : Node → List Statement
  | .message m => [.message m]
  | .note n => [.note n]
  | .directive x => [.directive x]
  | .block b => .blockStart { block := b, order := b.startOrder } :: b.body
termination_by structural n => n

/-- What follows the opening of a block. -/
def Block.body : Block → List Statement
  | ⟨kind, _, _, branches, start, stop⟩ =>
    Branch.expandFirst kind start branches ++ (stop.map (Block.closing start)).toList
termination_by structural b => b

/-- What stands in a branch, written out. -/
def Branch.contents : Branch → List Statement
  | ⟨_, _, statements⟩ => Node.expandAll statements
termination_by structural b => b

/-- The branches of a block; the first of them has no opening of its own. -/
def Branch.expandFirst (kind : BlockKind) (start : Int) : List Branch → List Statement
  | [] => []
  | b :: bs => b.contents ++ Branch.expandFrom kind start 1 bs
termination_by structural bs => bs

/-- The further branches of a block, counted from an index. -/
def Branch.expandFrom (kind : BlockKind) (start : Int) (index : Nat) : List Branch → List Statement
  | [] => []
  | b :: bs => Branch.opening kind start index b :: b.contents ++ Branch.expandFrom kind start (index + 1) bs
termination_by structural bs => bs

/-- Nodes written out in order. -/
def Node.expandAll : List Node → List Statement
  | [] => []
  | n :: ns => n.expand ++ Node.expandAll ns
termination_by structural ns => ns

end

mutual

/-- The open blocks on the last path of a node. -/
def Node.openPath : Node → List Block
  | .block b => if b.endOrder.isNone then b :: b.lastOpen else []
  | _ => []
termination_by structural n => n

/-- The open blocks on the last path inside a block. -/
def Block.lastOpen : Block → List Block
  | ⟨_, _, _, branches, _, _⟩ => Branch.lastOpenOf branches
termination_by structural b => b

/-- The open blocks on the last path of a branch. -/
def Branch.lastOpen : Branch → List Block
  | ⟨_, _, statements⟩ => Node.lastOpen statements
termination_by structural b => b

/-- The open blocks on the last path of the last of some branches. -/
def Branch.lastOpenOf : List Branch → List Block
  | [] => []
  | b :: bs => match bs with
    | [] => b.lastOpen
    | _ :: _ => Branch.lastOpenOf bs
termination_by structural bs => bs

/-- The open blocks on the last path of a tree, outermost first. -/
def Node.lastOpen : List Node → List Block
  | [] => []
  | n :: ns => match ns with
    | [] => n.openPath
    | _ :: _ => Node.lastOpen ns
termination_by structural ns => ns

end

/-- An item without what has grown into the block that it opens. -/
def Statement.bare : Statement → Statement
  | .blockStart s =>
    .blockStart { s with block := { kind := s.block.kind, label := s.block.label, color := s.block.color } }
  | item => item

theorem Node.expandAll_append (ns ms : List Node) :
    Node.expandAll (ns ++ ms) = Node.expandAll ns ++ Node.expandAll ms := by
  induction ns with
  | nil => rfl
  | cons n ns ih => simp [Node.expandAll, ih]

theorem Node.allBlocks_append (ns ms : List Node) :
    Node.allBlocks (ns ++ ms) = Node.allBlocks ns ++ Node.allBlocks ms := by
  induction ns with
  | nil => rfl
  | cons n ns ih => simp [Node.allBlocks, ih]

theorem Branch.allBlocks_append (bs cs : List Branch) :
    Branch.allBlocks (bs ++ cs) = Branch.allBlocks bs ++ Branch.allBlocks cs := by
  induction bs with
  | nil => rfl
  | cons b bs ih => simp [Branch.allBlocks, ih]

theorem Branch.expandFrom_append (kind : BlockKind) (start : Int) (index : Nat) (bs cs : List Branch) :
    Branch.expandFrom kind start index (bs ++ cs) =
      Branch.expandFrom kind start index bs ++ Branch.expandFrom kind start (index + bs.length) cs := by
  induction bs generalizing index with
  | nil => rfl
  | cons b bs ih => simp [Branch.expandFrom, ih, Nat.add_comm, Nat.add_left_comm]

/-! ## The blocks that are opened -/

/-- The order of an item that opens a block, with the block. -/
def Statement.opened? : Statement → Option (Int × Block)
  | .blockStart s => some (s.order, s.block)
  | _ => none

mutual

theorem Node.opened_expand : (n : Node) →
    n.expand.filterMap Statement.opened? = n.blocks.map fun b => (b.startOrder, b)
  | .message _ => rfl
  | .note _ => rfl
  | .directive _ => rfl
  | .block b => by
    simp [Node.expand, Node.blocks, Statement.opened?, Block.opened_body b]

theorem Block.opened_body : (b : Block) →
    b.body.filterMap Statement.opened? = b.inner.map fun b => (b.startOrder, b)
  | ⟨kind, _, _, branches, start, stop⟩ => by
    have hs : (stop.map (Block.closing start)).toList.filterMap Statement.opened? = [] := by
      cases stop <;> simp [Block.closing, Statement.opened?]
    simp only [Block.body, Block.inner, List.filterMap_append, hs, List.append_nil]
    exact Branch.opened_expandFirst kind start branches

theorem Branch.opened_contents : (b : Branch) →
    b.contents.filterMap Statement.opened? = b.blocks.map fun b => (b.startOrder, b)
  | ⟨_, _, statements⟩ => Node.opened_expandAll statements

theorem Branch.opened_expandFirst (kind : BlockKind) (start : Int) : (bs : List Branch) →
    (Branch.expandFirst kind start bs).filterMap Statement.opened? =
      (Branch.allBlocks bs).map fun b => (b.startOrder, b)
  | [] => rfl
  | b :: bs => by
    simp [Branch.expandFirst, Branch.allBlocks, Branch.opened_contents b, Branch.opened_expandFrom kind start 1 bs]

theorem Branch.opened_expandFrom (kind : BlockKind) (start : Int) (index : Nat) : (bs : List Branch) →
    (Branch.expandFrom kind start index bs).filterMap Statement.opened? =
      (Branch.allBlocks bs).map fun b => (b.startOrder, b)
  | [] => rfl
  | b :: bs => by
    simp [Branch.expandFrom, Branch.allBlocks, Branch.opening, Statement.opened?, List.filterMap_cons,
      Branch.opened_contents b, Branch.opened_expandFrom kind start (index + 1) bs]

/-- Written out, a tree opens its blocks in order. -/
theorem Node.opened_expandAll : (ns : List Node) →
    (Node.expandAll ns).filterMap Statement.opened? = (Node.allBlocks ns).map fun b => (b.startOrder, b)
  | [] => rfl
  | n :: ns => by
    simp [Node.expandAll, Node.allBlocks, Node.opened_expand n, Node.opened_expandAll ns]

end

theorem Node.starts_expandAll (ns : List Node) :
    (Node.allBlocks ns).map Block.startOrder = ((Node.expandAll ns).filterMap Statement.opened?).map Prod.fst := by
  rw [Node.opened_expandAll, List.map_map]
  rfl

/-- What grows into blocks makes no difference to where a tree opens them. -/
theorem Node.starts_eq {ns : List Node} {items : List Statement} (h : (Node.expandAll ns).map Statement.bare = items) :
    (Node.allBlocks ns).map Block.startOrder = (items.filterMap Statement.opened?).map Prod.fst := by
  have hbare : (fun item => (Statement.opened? item).map Prod.fst) =
      fun item => (Statement.opened? (Statement.bare item)).map Prod.fst := by
    funext item
    cases item <;> rfl
  rw [Node.starts_expandAll, ← h, List.filterMap_map, List.map_filterMap, List.map_filterMap]
  exact congrArg (List.filterMap · (Node.expandAll ns)) hbare

/-- Items that have distinct orders open blocks at distinct orders. -/
theorem Statement.nodup_opened {items : List Statement} (hn : (items.map Statement.order).Nodup) :
    ((items.filterMap Statement.opened?).map Prod.fst).Nodup := by
  have hsub : ((items.filterMap Statement.opened?).map Prod.fst).Sublist (items.map Statement.order) := by
    clear hn
    induction items with
    | nil => exact .slnil
    | cons x xs ih =>
      cases x with
      | blockStart s => exact ih.cons_cons _
      | _ => exact ih.cons _
  exact hn.sublist hsub

/-- In a tree whose items have distinct orders, blocks have distinct starts. -/
theorem Node.nodup_starts {ns : List Node} {items : List Statement}
    (h : (Node.expandAll ns).map Statement.bare = items) (hn : (items.map Statement.order).Nodup) :
    ((Node.allBlocks ns).map Block.startOrder).Nodup := by
  rw [Node.starts_eq h]
  exact Statement.nodup_opened hn

/-- With the blocks of the tree filled in, a timeline that is the tree without them is
the tree written out, if it opens blocks at distinct orders. -/
theorem Node.map_fillIn {ns : List Node} {items : List Statement} (h : (Node.expandAll ns).map Statement.bare = items)
    (hn : ((items.filterMap Statement.opened?).map Prod.fst).Nodup) :
    items.map (Statement.fillIn (Node.allBlocks ns)) = Node.expandAll ns := by
  have hstart : ((Node.allBlocks ns).map Block.startOrder).Nodup := Node.starts_eq h ▸ hn
  subst h
  have hmem : ∀ s, Statement.blockStart s ∈ Node.expandAll ns →
      s.order = s.block.startOrder ∧ s.block ∈ Node.allBlocks ns := by
    intro s hs
    have : (s.order, s.block) ∈ (Node.expandAll ns).filterMap Statement.opened? :=
      List.mem_filterMap.2 ⟨_, hs, rfl⟩
    rw [Node.opened_expandAll] at this
    obtain ⟨b, hb, he⟩ := List.mem_map.1 this
    simp only [Prod.mk.injEq] at he
    exact ⟨by rw [← he.1, he.2], he.2 ▸ hb⟩
  rw [List.map_map]
  refine (List.map_congr_left fun item hi => ?_).trans (List.map_id _)
  cases item with
  | blockStart s =>
    obtain ⟨ho, hb⟩ := hmem s hi
    have hf := find?_key Block.startOrder hstart hb
    rw [← ho] at hf
    simp [Statement.bare, Statement.fillIn, hf]
  | _ => rfl

/-! ## Blocks that grow -/

/-- What is written out of an open block so far. -/
def Block.soFar (b : Block) : List Statement :=
  Statement.bare (.blockStart { block := b, order := b.startOrder }) ::
    (Branch.expandFirst b.kind b.startOrder b.branches).map Statement.bare

/-- Whether a block has a first branch, with the label of the block. -/
def Block.Headed (b : Block) : Prop := b.branches.head?.map Branch.label = some b.label

/-- An open block as its timeline shows it. -/
def Block.asOpen (b : Block) : OpenBlock := ⟨b.kind, b.startOrder, b.branches.length⟩

theorem Block.Headed.ne_nil {b : Block} (h : b.Headed) : b.branches ≠ [] := by
  intro hb
  simp [Headed, hb] at h

theorem Branch.contents_push (b : Branch) (n : Node) :
    ({ b with statements := b.statements ++ [n] } : Branch).contents = b.contents ++ n.expand := by
  cases b
  simp [Branch.contents, Node.expandAll_append, Node.expandAll]

theorem Branch.expandFrom_hang (kind : BlockKind) (start : Int) (n : Node) (index : Nat) {bs : List Branch}
    (h : bs ≠ []) :
    Branch.expandFrom kind start index (Branch.hang n bs) =
      Branch.expandFrom kind start index bs ++ n.expand := by
  induction bs generalizing index with
  | nil => exact absurd rfl h
  | cons b bs ih =>
    cases bs with
    | nil => simp [Branch.hang, Branch.changeLast, Branch.expandFrom, Branch.contents_push, Branch.opening]
    | cons c cs =>
      have := ih (index + 1) (List.cons_ne_nil c cs)
      simp only [Branch.hang, Branch.changeLast, Branch.expandFrom] at this ⊢
      simp [this]

theorem Branch.expandFirst_hang (kind : BlockKind) (start : Int) (n : Node) {bs : List Branch} (h : bs ≠ []) :
    Branch.expandFirst kind start (Branch.hang n bs) = Branch.expandFirst kind start bs ++ n.expand := by
  match bs, h with
  | [b], _ => simp [Branch.hang, Branch.changeLast, Branch.expandFirst, Branch.expandFrom, Branch.contents_push]
  | b :: c :: cs, _ =>
    have := Branch.expandFrom_hang kind start n 1 (List.cons_ne_nil c cs)
    rw [show Branch.hang n (b :: c :: cs) = b :: Branch.hang n (c :: cs) from rfl, Branch.expandFirst, this]
    simp [Branch.expandFirst]

theorem Block.soFar_hang {b : Block} (h : b.Headed) (n : Node) :
    (b.hang n).soFar = b.soFar ++ n.expand.map Statement.bare := by
  simp [Block.soFar, Block.hang, Branch.expandFirst_hang _ _ _ h.ne_nil, Statement.bare]

theorem Block.soFar_addBranch {b : Block} (h : b.Headed) (label : Option String) (order : Int) :
    (b.addBranch label order).soFar =
      b.soFar ++ [Branch.opening b.kind b.startOrder b.branches.length { label, startOrder := order }] := by
  unfold Block.soFar Block.addBranch
  cases hb : b.branches with
  | nil => exact absurd hb h.ne_nil
  | cons c cs =>
    simp [Branch.expandFirst, Branch.expandFrom_append, Branch.expandFrom, Branch.contents, Node.expandAll,
      Branch.opening, Statement.bare, Nat.add_comm]

theorem Branch.length_hang (n : Node) (bs : List Branch) : (Branch.hang n bs).length = bs.length := by
  induction bs with
  | nil => rfl
  | cons b bs ih => cases bs <;> simp_all [Branch.hang, Branch.changeLast]

theorem Branch.head?_hang (n : Node) (bs : List Branch) :
    (Branch.hang n bs).head?.map Branch.label = bs.head?.map Branch.label := by
  match bs with
  | [] => rfl
  | [_] => rfl
  | _ :: _ :: _ => rfl

theorem Branch.allBlocks_hang (n : Node) {bs : List Branch} (h : bs ≠ []) :
    Branch.allBlocks (Branch.hang n bs) = Branch.allBlocks bs ++ n.blocks := by
  induction bs with
  | nil => exact absurd rfl h
  | cons b bs ih =>
    cases bs with
    | nil => cases b; simp [Branch.hang, Branch.changeLast, Branch.allBlocks, Branch.blocks, Node.allBlocks_append, Node.allBlocks]
    | cons c cs =>
      have := ih (List.cons_ne_nil c cs)
      simp only [Branch.hang, Branch.changeLast, Branch.allBlocks] at this ⊢
      simp [this]

theorem Block.inner_hang {b : Block} (h : b.Headed) (n : Node) : (b.hang n).inner = b.inner ++ n.blocks := by
  have := Branch.allBlocks_hang n h.ne_nil
  cases b
  exact this

theorem Block.inner_end (b : Block) (stop : Option Int) : ({ b with endOrder := stop } : Block).inner = b.inner := by
  cases b
  rfl

theorem Block.Headed.hang {b : Block} (h : b.Headed) (n : Node) : (b.hang n).Headed :=
  (Branch.head?_hang n b.branches).trans h

theorem Block.Headed.addBranch {b : Block} (h : b.Headed) (label : Option String) (order : Int) :
    (b.addBranch label order).Headed := by
  unfold Block.Headed Block.addBranch at *
  cases hb : b.branches with
  | nil => simp [hb] at h
  | cons c cs => simpa [hb] using h

/-- A block that is done: its head is in order and it has an end. -/
def Block.Done (b : Block) : Prop := b.Headed ∧ b.endOrder.isSome = true

/-! ## The tree grows with the timeline -/

/-- A tree that has grown along a timeline: its path are the open blocks, everything
else is done, and written out it is the timeline. -/
structure Grown (opens : List OpenBlock) (items : List Statement) (g : Growth) : Prop where
  path : g.path.map Block.asOpen = opens
  headed : ∀ b ∈ g.path, b.Headed ∧ b.endOrder = none
  within : ∀ b ∈ g.path, ∀ c ∈ b.inner, c.Done
  roots : ∀ c ∈ Node.allBlocks g.roots, c.Done
  written : (Node.expandAll g.roots).map Statement.bare ++ g.path.reverse.flatMap Block.soFar = items

namespace Grown

variable {opens : List OpenBlock} {items : List Statement} {g : Growth}

/-- Something done may be hung into a grown tree. -/
theorem hang (h : Grown opens items g) {n : Node} (hn : ∀ c ∈ n.blocks, c.Done) :
    Grown opens (items ++ n.expand.map Statement.bare) (g.hang n) := by
  obtain ⟨hpath, hhead, hin, hroots, hw⟩ := h
  obtain ⟨roots, path⟩ := g
  cases path with
  | nil =>
    refine ⟨hpath, by simp [Growth.hang], by simp [Growth.hang], ?_, ?_⟩
    · simp only [Growth.hang, Node.allBlocks_append, Node.allBlocks, List.append_nil, List.mem_append]
      rintro c (hc | hc)
      · exact hroots c hc
      · exact hn c hc
    · simp only [List.reverse_nil, List.flatMap_nil, List.append_nil] at hw
      simp [Growth.hang, ← hw, Node.expandAll_append, Node.expandAll]
  | cons b outer =>
    simp only [List.mem_cons, forall_eq_or_imp] at hhead hin
    refine ⟨?_, ?_, ?_, hroots, ?_⟩
    · simpa [Growth.hang, Block.asOpen, Block.hang, Branch.length_hang] using hpath
    · simp only [Growth.hang, List.mem_cons, forall_eq_or_imp]
      exact ⟨⟨hhead.1.1.hang n, hhead.1.2⟩, hhead.2⟩
    · simp only [Growth.hang, List.mem_cons, forall_eq_or_imp, Block.inner_hang hhead.1.1, List.mem_append]
      refine ⟨?_, hin.2⟩
      rintro c (hc | hc)
      · exact hin.1 c hc
      · exact hn c hc
    · rw [← hw]
      simp [Growth.hang, Block.soFar_hang hhead.1.1]

/-- The innermost block of a grown tree with an end is done. -/
theorem done {b : Block} {outer : List Block} (h : Grown opens items g) (hg : g.path = b :: outer) (stop : Int) :
    ∀ c ∈ (Node.block { b with endOrder := some stop }).blocks, c.Done := by
  have hb := h.headed b (by simp [hg])
  simp only [Node.blocks, List.mem_cons, forall_eq_or_imp, Block.inner_end]
  exact ⟨⟨hb.1, rfl⟩, h.within b (by simp [hg])⟩

end Grown

theorem Block.expand_closed (b : Block) (stop : Int) :
    (Node.block { b with endOrder := some stop }).expand.map Statement.bare =
      b.soFar ++ [Block.closing b.startOrder stop] := by
  simp [Node.expand, Block.body, Block.soFar, Statement.bare, Block.closing]

/-- So far, a block that has just been opened is its opening, which is bare when it is added to
a timeline. -/
theorem Block.soFar_opened {s : BlockStart} {older : List Statement} (h : (Statement.blockStart s).Follows older) :
    (Block.opened s.block.kind s.block.label s.block.color s.order).soFar = [.blockStart s] := by
  obtain ⟨-, hbranches, hstart, hend⟩ := h
  obtain ⟨⟨kind, label, color, branches, start, stop⟩, order⟩ := s
  simp only at hbranches hstart hend
  subst hbranches hstart hend
  rfl

namespace Grown

variable {older : List Statement} {items : List Statement} {g : Growth}

/-- A block that opens grows the path. -/
theorem opens {s : BlockStart} (hg : Grown (openAfter older) items g) (hs : (Statement.blockStart s).Follows older) :
    Grown (openAfter (.blockStart s :: older)) (items ++ [.blockStart s]) (g.step (.blockStart s)) := by
  refine ⟨?_, ?_, ?_, hg.roots, ?_⟩
  · simp [Growth.step, openAfter, Block.opened, Block.asOpen, hg.path]
  · simp only [Growth.step, List.mem_cons, forall_eq_or_imp]
    exact ⟨⟨rfl, rfl⟩, hg.headed⟩
  · simp only [Growth.step, List.mem_cons, forall_eq_or_imp]
    exact ⟨by simp [Block.opened, Block.inner, Branch.allBlocks, Branch.blocks, Node.allBlocks], hg.within⟩
  · simp [Growth.step, ← hg.written, Block.soFar_opened hs]

/-- The innermost open block of a timeline is the first block on the path. -/
theorem innermost {o : OpenBlock} {outer : List OpenBlock} (hg : Grown (o :: outer) items g) :
    ∃ inner rest, g.path = inner :: rest ∧ inner.asOpen = o ∧ rest.map Block.asOpen = outer :=
  List.map_eq_cons_iff.1 hg.path

/-- Without its innermost open block, a grown tree is one. -/
theorem outside {opens : List OpenBlock} {inner : Block} {rest : List Block} (hg : Grown opens items g)
    (hp : g.path = inner :: rest) :
    Grown opens.tail ((Node.expandAll g.roots).map Statement.bare ++ rest.reverse.flatMap Block.soFar) { g with path := rest } := by
  refine ⟨?_, fun c hc => hg.headed c (by simp [hp, hc]), fun c hc => hg.within c (by simp [hp, hc]), hg.roots, rfl⟩
  rw [← hg.path, hp]
  rfl

/-- A branch grows the block that it is opened in. -/
theorem branches {b : BlockBranch} (hg : Grown (openAfter older) items g) (hb : (Statement.blockBranch b).Follows older) :
    Grown (openAfter (.blockBranch b :: older)) (items ++ [.blockBranch b]) (g.step (.blockBranch b)) := by
  obtain ⟨-, o, outer, ho, hk, hstart, hindex⟩ := hb
  obtain ⟨inner, rest, hpath, rfl, hrest⟩ := (ho ▸ hg).innermost
  have hi := hg.headed inner (by simp [hpath])
  simp only [Growth.step, hpath]
  refine ⟨?_, ?_, ?_, hg.roots, ?_⟩
  · simp [openAfter, ho, Block.asOpen, Block.addBranch, ← hrest]
  · simp only [List.mem_cons, forall_eq_or_imp]
    exact ⟨⟨hi.1.addBranch _ _, hi.2⟩, fun c hc => hg.headed c (by simp [hpath, hc])⟩
  · simp only [List.mem_cons, forall_eq_or_imp]
    refine ⟨fun c hc => hg.within inner (by simp [hpath]) c ?_, fun c hc => hg.within c (by simp [hpath, hc])⟩
    cases inner
    simpa [Block.addBranch, Block.inner, Branch.allBlocks_append, Branch.allBlocks, Branch.blocks,
      Node.allBlocks] using hc
  · rw [← hg.written, hpath]
    simp only [Block.asOpen] at hk hstart hindex
    simp [Block.soFar_addBranch hi.1, Branch.opening, hk, ← hstart, ← hindex]

/-- A block that ends is hung, done, into the blocks around it. -/
theorem ends {e : BlockEnd} (hg : Grown (openAfter older) items g) (he : (Statement.blockEnd e).Follows older) :
    Grown (openAfter (.blockEnd e :: older)) (items ++ [.blockEnd e]) (g.step (.blockEnd e)) := by
  obtain ⟨-, o, outer, ho, hstart⟩ := he
  obtain ⟨inner, rest, hpath, rfl, -⟩ := (ho ▸ hg).innermost
  have hitems : items ++ [.blockEnd e] =
      (Node.expandAll g.roots).map Statement.bare ++ rest.reverse.flatMap Block.soFar ++
        (Node.block { inner with endOrder := some e.order }).expand.map Statement.bare := by
    simp only [Block.asOpen] at hstart
    rw [Block.expand_closed, ← hg.written, hpath]
    simp [Block.closing, ← hstart]
  simp only [Growth.step, hpath, openAfter, hitems]
  exact (hg.outside hpath).hang (hg.done hpath e.order)

end Grown

/-- The tree of a timeline has grown along it. -/
theorem grown_ofPast {past : List Statement} (h : History past) :
    Grown (openAfter past) past.reverse (Growth.ofPast past) := by
  induction past with
  | nil => exact ⟨rfl, by simp [Growth.ofPast], by simp [Growth.ofPast], by simp [Growth.ofPast, Node.allBlocks], rfl⟩
  | cons item older ih =>
    have hg := ih h.2
    simp only [List.reverse_cons, Growth.ofPast]
    cases item with
    | message m => exact hg.hang (n := .message m) (by simp [Node.blocks])
    | note n => exact hg.hang (n := .note n) (by simp [Node.blocks])
    | directive x => exact hg.hang (n := .directive x) (by simp [Node.blocks])
    | blockStart s => exact hg.opens h.1
    | blockBranch b => exact hg.branches h.1
    | blockEnd e => exact hg.ends h.1
    | _ => exact h.1.elim

/-! ## The last path -/

theorem Block.Done.not_isOpen {b : Block} (h : b.Done) : b.isOpen = false := by
  simpa [isOpen] using h.2

mutual

theorem Node.mem_openPath : (n : Node) → ∀ b ∈ n.openPath, b ∈ n.blocks ∧ b.isOpen = true
  | .message _ | .note _ | .directive _ => by simp [Node.openPath]
  | .block b => by
    unfold Node.openPath
    split
    · rename_i ho
      simp only [List.mem_cons, forall_eq_or_imp, Node.blocks]
      exact ⟨⟨.inl trivial, ho⟩, fun c hc => (Block.mem_lastOpen b c hc).imp_left .inr⟩
    · simp

theorem Block.mem_lastOpen : (b : Block) → ∀ c ∈ b.lastOpen, c ∈ b.inner ∧ c.isOpen = true
  | ⟨_, _, _, branches, _, _⟩ => Branch.mem_lastOpenOf branches

theorem Branch.mem_lastOpen : (b : Branch) → ∀ c ∈ b.lastOpen, c ∈ b.blocks ∧ c.isOpen = true
  | ⟨_, _, statements⟩ => Node.mem_lastOpen statements

theorem Branch.mem_lastOpenOf : (bs : List Branch) → ∀ c ∈ Branch.lastOpenOf bs, c ∈ Branch.allBlocks bs ∧ c.isOpen = true
  | [] => by simp [Branch.lastOpenOf]
  | [b] => by simpa [Branch.lastOpenOf, Branch.allBlocks] using Branch.mem_lastOpen b
  | b :: c :: cs => fun x hx => by
    have := Branch.mem_lastOpenOf (c :: cs) x (by simpa [Branch.lastOpenOf] using hx)
    exact ⟨by rw [Branch.allBlocks]; exact List.mem_append_right _ this.1, this.2⟩

/-- The last path of a tree is made of open blocks of the tree. -/
theorem Node.mem_lastOpen : (ns : List Node) → ∀ b ∈ Node.lastOpen ns, b ∈ Node.allBlocks ns ∧ b.isOpen = true
  | [] => by simp [Node.lastOpen]
  | [n] => by simpa [Node.lastOpen, Node.allBlocks] using Node.mem_openPath n
  | n :: m :: ms => fun x hx => by
    have := Node.mem_lastOpen (m :: ms) x (by simpa [Node.lastOpen] using hx)
    exact ⟨by rw [Node.allBlocks]; exact List.mem_append_right _ this.1, this.2⟩

end

theorem Node.lastOpen_concat (ns : List Node) (n : Node) : Node.lastOpen (ns ++ [n]) = n.openPath := by
  induction ns with
  | nil => rfl
  | cons m ms ih =>
    cases ms with
    | nil => rfl
    | cons k ks => exact ih

theorem Branch.lastOpenOf_hang (n : Node) {bs : List Branch} (h : bs ≠ []) :
    Branch.lastOpenOf (Branch.hang n bs) = n.openPath := by
  induction bs with
  | nil => exact absurd rfl h
  | cons b bs ih =>
    match bs with
    | [] => cases b; simp [Branch.hang, Branch.changeLast, Branch.lastOpenOf, Branch.lastOpen, Node.lastOpen_concat]
    | [c] => simpa [Branch.hang, Branch.changeLast, Branch.lastOpenOf] using ih (List.cons_ne_nil c [])
    | c :: d :: ds => simpa [Branch.hang, Branch.changeLast, Branch.lastOpenOf] using ih (List.cons_ne_nil c (d :: ds))

theorem Block.lastOpen_hang {b : Block} (h : b.Headed) (n : Node) (stop : Option Int) :
    ({ b.hang n with endOrder := stop } : Block).lastOpen = n.openPath := Branch.lastOpenOf_hang n h.ne_nil

/-- A block as it stands on a path, without an end. -/
def Block.pending (b : Block) : Node := .block { b with endOrder := none }

/-- In a node, the open blocks are those on its last path, and every block is headed. -/
def Node.Ordered (n : Node) : Prop := n.blocks.filter Block.isOpen = n.openPath ∧ ∀ b ∈ n.blocks, b.Headed

theorem Block.pending_ordered {b : Block} (h : b.Headed) (hin : ∀ c ∈ b.inner, c.Done) :
    b.pending.Ordered ∧ b.pending.openPath.map (fun b => (b.kind, b.startOrder)) = [(b.kind, b.startOrder)] := by
  have hfil : b.inner.filter Block.isOpen = [] := by
    refine List.filter_eq_nil_iff.2 fun c hc => ?_
    simp [(hin c hc).not_isOpen]
  have hlast : ({ b with endOrder := none } : Block).lastOpen = [] := by
    refine List.eq_nil_iff_forall_not_mem.2 fun c hc => ?_
    obtain ⟨hm, ho⟩ := Block.mem_lastOpen _ c hc
    rw [Block.inner_end] at hm
    simp [(hin c hm).not_isOpen] at ho
  refine ⟨⟨?_, ?_⟩, ?_⟩
  · simp [pending, Node.blocks, Node.openPath, Block.inner_end, hfil, hlast, Block.isOpen, List.filter_cons]
  · simp only [pending, Node.blocks, List.mem_cons, forall_eq_or_imp, Block.inner_end]
    exact ⟨h, fun c hc => (hin c hc).1⟩
  · simp [pending, Node.openPath, hlast]

/-- A block with an ordered node hung in stays ordered, with one block more on its path. -/
theorem Block.hang_ordered {b : Block} (h : b.Headed) (hin : ∀ c ∈ b.inner, c.Done) {n : Node} (hn : n.Ordered) :
    (b.hang n).pending.Ordered ∧
      (b.hang n).pending.openPath.map (fun b => (b.kind, b.startOrder)) =
        (b.kind, b.startOrder) :: n.openPath.map fun b => (b.kind, b.startOrder) := by
  have hfil : b.inner.filter Block.isOpen = [] := by
    refine List.filter_eq_nil_iff.2 fun c hc => ?_
    simp [(hin c hc).not_isOpen]
  refine ⟨⟨?_, ?_⟩, ?_⟩
  · simp [pending, Node.blocks, Node.openPath, Block.inner_end, Block.inner_hang h, Block.lastOpen_hang h, hfil,
      Block.isOpen, List.filter_cons, ← hn.1]
  · simp only [pending, Node.blocks, List.mem_cons, forall_eq_or_imp, Block.inner_end, Block.inner_hang h,
      List.mem_append]
    refine ⟨h.hang n, ?_⟩
    rintro c (hc | hc)
    · exact (hin c hc).1
    · exact hn.2 c hc
  · simp only [pending, Node.openPath, Option.isNone_none, if_true, List.map_cons, Block.lastOpen_hang h]
    rfl

theorem Growth.enclose_ordered {inner : Block} {outer : List Block} (hx : inner.pending.Ordered)
    (ho : ∀ b ∈ outer, b.Headed ∧ ∀ c ∈ b.inner, c.Done) :
    (Growth.enclose none inner outer).Ordered ∧
      (Growth.enclose none inner outer).openPath.map (fun b => (b.kind, b.startOrder)) =
        outer.reverse.map (fun b => (b.kind, b.startOrder)) ++
          inner.pending.openPath.map fun b => (b.kind, b.startOrder) := by
  induction outer generalizing inner with
  | nil => exact ⟨hx, rfl⟩
  | cons b outer ih =>
    simp only [List.mem_cons, forall_eq_or_imp] at ho
    obtain ⟨hb, hkeys⟩ := Block.hang_ordered ho.1.1 ho.1.2 hx
    obtain ⟨hord, hpath⟩ := ih hb ho.2
    refine ⟨hord, hpath.trans ?_⟩
    rw [hkeys]
    simp

theorem Growth.expand_enclose {inner : Block} {outer : List Block} (ho : ∀ b ∈ outer, b.Headed) :
    (Growth.enclose none inner outer).expand.map Statement.bare =
      (inner :: outer).reverse.flatMap Block.soFar := by
  induction outer generalizing inner with
  | nil => simp [Growth.enclose, Node.expand, Block.body, Block.soFar, Statement.bare]
  | cons b outer ih =>
    simp only [List.mem_cons, forall_eq_or_imp] at ho
    have hsoFar : inner.pending.expand.map Statement.bare = inner.soFar := by
      simp [Block.pending, Node.expand, Block.body, Block.soFar, Statement.bare]
    refine (ih ho.2).trans ?_
    change ((b.hang inner.pending) :: outer).reverse.flatMap Block.soFar = _
    simp [Block.soFar_hang ho.1, hsoFar]

theorem Growth.expand_enclose_closed (inner : Block) {outer : List Block} (ho : ∀ b ∈ outer, b.Headed) (stop : Int) :
    (Growth.enclose (some stop) inner outer).expand.map Statement.bare =
      (inner :: outer).reverse.flatMap Block.soFar ++ (inner :: outer).map fun b => Block.closing b.startOrder stop := by
  induction outer generalizing inner with
  | nil =>
    have := Block.expand_closed inner stop
    simpa [Growth.enclose] using this
  | cons b outer ih =>
    simp only [List.mem_cons, forall_eq_or_imp] at ho
    have hinner := Block.expand_closed inner stop
    refine (ih _ ho.2).trans ?_
    have hstart : (b.hang (.block { inner with endOrder := some stop })).startOrder = b.startOrder := rfl
    simp [Block.soFar_hang ho.1, hinner, hstart]

/-- With an end for its open blocks, the tree written out is the timeline with their ends
behind it. -/
theorem Grown.nodes_closed {opens : List OpenBlock} {items : List Statement} {g : Growth} (h : Grown opens items g)
    (stop : Int) : (Node.expandAll (g.nodes (some stop))).map Statement.bare =
      items ++ g.path.map fun b => Block.closing b.startOrder stop := by
  have hw := h.written
  unfold Growth.nodes
  cases hg : g.path with
  | nil =>
    rw [hg] at hw
    simpa using hw
  | cons inner outer =>
    have houter : ∀ b ∈ outer, b.Headed := fun b hb => (h.headed b (by simp [hg, hb])).1
    have hclosed := Growth.expand_enclose_closed inner houter stop
    rw [hg] at hw
    rw [← hw, Node.expandAll_append, List.map_append, Node.expandAll, Node.expandAll, List.append_nil, hclosed,
      List.append_assoc]

/-- The tree of what has grown: written out it is the timeline, its open blocks are its
last path, and that path is the path along which it grew. -/
theorem Grown.nodes {opens : List OpenBlock} {items : List Statement} {g : Growth} (h : Grown opens items g) :
    (Node.expandAll (g.nodes none)).map Statement.bare = items ∧
      (Node.allBlocks (g.nodes none)).filter Block.isOpen = Node.lastOpen (g.nodes none) ∧
      (∀ b ∈ Node.allBlocks (g.nodes none), b.Headed) ∧
      (Node.lastOpen (g.nodes none)).map (fun b => (b.kind, b.startOrder)) =
        (opens.map fun o => (o.kind, o.start)).reverse := by
  have hfil : (Node.allBlocks g.roots).filter Block.isOpen = [] := by
    refine List.filter_eq_nil_iff.2 fun c hc => ?_
    simp [(h.roots c hc).not_isOpen]
  have hopens : (opens.map fun o => (o.kind, o.start)) = g.path.map fun b => (b.kind, b.startOrder) := by
    rw [← h.path, List.map_map]
    rfl
  have hw := h.written
  rw [hopens]
  unfold Growth.nodes
  cases hg : g.path with
  | nil =>
    have hlast : Node.lastOpen g.roots = [] := by
      refine List.eq_nil_iff_forall_not_mem.2 fun c hc => ?_
      obtain ⟨hm, ho⟩ := Node.mem_lastOpen _ c hc
      simp [(h.roots c hm).not_isOpen] at ho
    rw [hg] at hw
    refine ⟨by simpa using hw, by rw [hfil, hlast], fun b hb => (h.roots b hb).1, by simp [hlast]⟩
  | cons inner outer =>
    have hhead : ∀ b ∈ inner :: outer, b.Headed ∧ ∀ c ∈ b.inner, c.Done := fun b hb =>
      ⟨(h.headed b (hg ▸ hb)).1, h.within b (hg ▸ hb)⟩
    simp only [List.mem_cons, forall_eq_or_imp] at hhead
    obtain ⟨hord, hkey⟩ := Block.pending_ordered hhead.1.1 hhead.1.2
    obtain ⟨hord', hkey'⟩ := Growth.enclose_ordered hord hhead.2
    rw [hg] at hw
    refine ⟨?_, ?_, ?_, ?_⟩
    · rw [← hw, Node.expandAll_append, List.map_append, Node.expandAll, Node.expandAll, List.append_nil,
        Growth.expand_enclose fun b hb => (hhead.2 b hb).1]
    · simp [Node.allBlocks_append, Node.allBlocks, hfil, Node.lastOpen_concat, hord'.1]
    · simp only [Node.allBlocks_append, Node.allBlocks, List.append_nil, List.mem_append]
      rintro b (hb | hb)
      · exact (h.roots b hb).1
      · exact hord'.2 b hb
    · rw [Node.lastOpen_concat, hkey', hkey]
      simp

end Lifeline
