import Lifeline.Proofs.Lifespans
import Lifeline.Proofs.Permanence
/-!
# The extents of blocks

A block has an extent, from its start to its end, and it has contents, which are a part of the
tree. In a diagram that is built, where blocks that are still open end with the timeline, the two
agree (`Draft.extents_agree`). Written out, the built tree is the timeline with the ends of the
open blocks behind it (`Diagram.Plotted`). Orders rise along it, and what a block holds is one
stretch of it, so an item is in the extent of a block if and only if it is in that stretch.
-/

namespace Lifeline

/-! ## What a block holds -/

/-- Whether a node stands among some nodes, or in a block among them at any depth. -/
inductive Node.Under (n : Node) : List Node → Prop
  | here {ns : List Node} (h : n ∈ ns) : Under n ns
  | inside {ns : List Node} {b : Block} (hb : .block b ∈ ns) (h : Under n b.statements) : Under n ns

/-- Whether an item of a timeline is within a block: it stands in the tree below the block, it
opens a further branch of it, or it opens, continues or closes a block below it. -/
def Block.Holds (b : Block) : Statement → Prop
  | .message m => Node.Under (.message m) b.statements
  | .note n => Node.Under (.note n) b.statements
  | .directive x => Node.Under (.directive x) b.statements
  | .blockStart s => Node.Under (.block s.block) b.statements
  | .blockBranch x => ∃ c : Block, (c = b ∨ Node.Under (.block c) b.statements) ∧ x.blockOrder = c.startOrder
  | .blockEnd e => ∃ c : Block, Node.Under (.block c) b.statements ∧ e.blockOrder = c.startOrder
  | _ => False

/-- Whether a block starts with its first branch. -/
def Block.Rooted (b : Block) : Prop := b.branches.head?.map Branch.startOrder = some b.startOrder

/-- Whether of two blocks that have ended one lies within the other, or both lie apart. -/
def Block.Nests (b c : Block) : Prop :=
  ∃ e f, b.endOrder = some e ∧ c.endOrder = some f ∧
    (b.startOrder ≤ c.startOrder ∧ f ≤ e ∨ c.startOrder ≤ b.startOrder ∧ e ≤ f ∨ e ≤ c.startOrder ∨ f ≤ b.startOrder)

/-- A block whose branches lie one behind the other up to its end, each around what stands in
it. -/
structure Block.InOrder (b : Block) (stop : Int) : Prop where
  stops : b.endOrder = some stop
  first : b.Rooted
  rising : (b.branches.map Branch.startOrder).Pairwise (· < ·)
  within : ∀ before br after, b.branches = before ++ br :: after → ∀ n ∈ br.statements,
    br.startOrder < n.order ∧ n.order < (after.head?.map Branch.startOrder).getD stop ∧
      ∀ c, n = .block c → ∃ f, c.endOrder = some f ∧ f ≤ stop ∧ ∀ next ∈ after.head?, f < next.startOrder

theorem Node.Under.trans {b : Block} {n : Node} {ns : List Node} (hb : Node.Under (.block b) ns) (h : n.Under b.statements) :
    n.Under ns := by
  induction hb with
  | here hb => exact .inside hb h
  | inside hc _ ih => exact .inside hc ih

/-! ## The items of a tree -/

/-- The items that open the further branches of a block, counted from an index. -/
def Branch.openings (kind : BlockKind) (start : Int) (index : Nat) : List Branch → List Statement
  | [] => []
  | b :: bs => Branch.opening kind start index b :: Branch.openings kind start (index + 1) bs

/-- The items of a timeline that are a node, or that open, continue and close it. -/
def Node.own : Node → List Statement
  | .message m => [.message m]
  | .note n => [.note n]
  | .directive x => [.directive x]
  | .block b => .blockStart { block := b, order := b.startOrder } ::
      (Branch.openings b.kind b.startOrder 1 b.branches.tail ++ (b.endOrder.map (Block.closing b.startOrder)).toList)

/-- What stands between the start and the end of a block, written out. -/
def Block.inside (b : Block) : List Statement := Branch.expandFirst b.kind b.startOrder b.branches

theorem Block.expand_eq (b : Block) : (Node.block b).expand = .blockStart { block := b, order := b.startOrder } ::
    (b.inside ++ (b.endOrder.map (Block.closing b.startOrder)).toList) := by
  cases b
  rfl

theorem Branch.contents_eq (b : Branch) : b.contents = Node.expandAll b.statements := by
  cases b
  rfl

theorem Node.mem_expandAll {x : Statement} {ns : List Node} : x ∈ Node.expandAll ns ↔ ∃ n ∈ ns, x ∈ n.expand := by
  induction ns with
  | nil => simp [Node.expandAll]
  | cons n ns ih => simp [Node.expandAll, ih]

theorem Branch.mem_openings {kind : BlockKind} {start : Int} {x : Statement} {bs : List Branch} {index : Nat}
    (h : x ∈ Branch.openings kind start index bs) : ∃ y, x = .blockBranch y ∧ y.blockOrder = start := by
  induction bs generalizing index with
  | nil => cases h
  | cons b bs ih =>
    rcases List.mem_cons.1 h with rfl | h
    · exact ⟨_, rfl, rfl⟩
    · exact ih h

theorem Branch.order_openings (kind : BlockKind) (start : Int) (index : Nat) (bs : List Branch) :
    (Branch.openings kind start index bs).map Statement.order = bs.map Branch.startOrder := by
  induction bs generalizing index with
  | nil => rfl
  | cons b bs ih => exact congrArg (b.startOrder :: ·) (ih (index + 1))

theorem Branch.openings_sublist (kind : BlockKind) (start : Int) (index : Nat) (bs : List Branch) :
    (Branch.openings kind start index bs).Sublist (Branch.expandFrom kind start index bs) := by
  induction bs generalizing index with
  | nil => exact .slnil
  | cons b bs ih => exact ((ih (index + 1)).trans (List.sublist_append_right _ _)).cons_cons _

theorem Branch.mem_expandFrom {kind : BlockKind} {start : Int} {x : Statement} {bs : List Branch} {index : Nat} :
    x ∈ Branch.expandFrom kind start index bs ↔
      x ∈ Branch.openings kind start index bs ∨ x ∈ Node.expandAll (bs.flatMap Branch.statements) := by
  induction bs generalizing index with
  | nil => simp [Branch.expandFrom, Branch.openings, Node.expandAll]
  | cons b bs ih =>
    simp only [Branch.expandFrom, Branch.openings, List.flatMap_cons, Node.expandAll_append, Branch.contents_eq,
      List.cons_append, List.mem_cons, List.mem_append, ih]
    tauto

/-- Inside a block there are the openings of its branches and what stands in them. -/
theorem Block.mem_inside {b : Block} {x : Statement} : x ∈ b.inside ↔
    x ∈ Branch.openings b.kind b.startOrder 1 b.branches.tail ∨ x ∈ Node.expandAll b.statements := by
  unfold Block.inside Block.statements
  cases b.branches with
  | nil => simp [Branch.expandFirst, Branch.openings, Node.expandAll]
  | cons br bs =>
    simp only [Branch.expandFirst, List.tail_cons, List.flatMap_cons, Node.expandAll_append, Branch.contents_eq,
      List.mem_append, Branch.mem_expandFrom]
    tauto

theorem Branch.sublist_expandFrom (kind : BlockKind) (start : Int) (bs : List Branch) (index : Nat) :
    (Node.expandAll (bs.flatMap Branch.statements)).Sublist (Branch.expandFrom kind start index bs) := by
  induction bs generalizing index with
  | nil => exact .slnil
  | cons b bs ih =>
    simp only [List.flatMap_cons, Node.expandAll_append, Branch.expandFrom, ← Branch.contents_eq]
    exact ((List.Sublist.refl _).append (ih (index + 1))).cons _

theorem Block.sublist_inside (b : Block) : (Node.expandAll b.statements).Sublist b.inside := by
  unfold Block.inside Block.statements
  cases b.branches with
  | nil => exact .slnil
  | cons br bs =>
    simp only [List.flatMap_cons, Node.expandAll_append, Branch.expandFirst, ← Branch.contents_eq]
    exact (List.Sublist.refl _).append (Branch.sublist_expandFrom b.kind b.startOrder bs 1)

/-- What holds of nodes if it holds of what stands in each block among them holds of all nodes. -/
theorem Node.induction {motive : List Node → Prop}
    (h : ∀ ns, (∀ b, .block b ∈ ns → motive b.statements) → motive ns) (ns : List Node) : motive ns := by
  refine h ns fun b hb => ?_
  have : (Node.expandAll b.statements).length < (Node.expandAll ns).length := by
    have hinside := b.sublist_inside.length_le
    obtain ⟨before, after, rfl⟩ := List.append_of_mem hb
    simp only [Node.expandAll_append, Node.expandAll, Block.expand_eq, List.length_append, List.length_cons]
    omega
  exact Node.induction h b.statements
termination_by (Node.expandAll ns).length

/-- Written out, a tree has the items of the nodes in it. -/
theorem Node.mem_expandAll_iff {x : Statement} {ns : List Node} : x ∈ Node.expandAll ns ↔ ∃ n : Node, n.Under ns ∧ x ∈ n.own := by
  constructor
  · induction ns using Node.induction with
    | h ns ih =>
      intro hx
      obtain ⟨n, hn, hx⟩ := Node.mem_expandAll.1 hx
      cases n with
      | message | note | directive => exact ⟨_, .here hn, hx⟩
      | block b =>
        simp only [Block.expand_eq, List.mem_cons, List.mem_append, Block.mem_inside] at hx
        rcases hx with hx | (hx | hx) | hx
        · exact ⟨_, .here hn, List.mem_cons.2 (.inl hx)⟩
        · exact ⟨_, .here hn, List.mem_cons_of_mem _ (List.mem_append_left _ hx)⟩
        · obtain ⟨k, hk, hx⟩ := ih b hn hx
          exact ⟨k, .inside hn hk, hx⟩
        · exact ⟨_, .here hn, List.mem_cons_of_mem _ (List.mem_append_right _ hx)⟩
  · rintro ⟨n, hn, hx⟩
    induction hn with
    | here hn =>
      refine Node.mem_expandAll.2 ⟨n, hn, ?_⟩
      cases n with
      | message | note | directive => exact hx
      | block b =>
        simp only [Node.own, List.mem_cons, List.mem_append] at hx
        simp only [Block.expand_eq, List.mem_cons, List.mem_append, Block.mem_inside]
        tauto
    | inside hb _ ih =>
      refine Node.mem_expandAll.2 ⟨_, hb, ?_⟩
      simp only [Block.expand_eq, List.mem_cons, List.mem_append, Block.mem_inside]
      exact .inr (.inl (.inr ih))

theorem Block.mem_inside_of_under {b : Block} {n : Node} (hn : n.Under b.statements) {x : Statement} (hx : x ∈ n.own) :
    x ∈ b.inside :=
  Block.mem_inside.2 (.inr (Node.mem_expandAll_iff.2 ⟨n, hn, hx⟩))

/-- A block holds what stands inside it. -/
theorem Block.holds_of_mem {b : Block} {x : Statement} (hx : x ∈ b.inside) : b.Holds x := by
  rcases Block.mem_inside.1 hx with hx | hx
  · obtain ⟨y, rfl, hy⟩ := Branch.mem_openings hx
    exact ⟨b, .inl rfl, hy⟩
  · obtain ⟨n, hn, hx⟩ := Node.mem_expandAll_iff.1 hx
    cases n with
    | message | note | directive =>
      obtain rfl := List.mem_singleton.1 hx
      exact hn
    | block c =>
      simp only [Node.own, List.mem_cons, List.mem_append, Option.mem_toList, Option.map_eq_some_iff] at hx
      rcases hx with rfl | hx | ⟨e, -, rfl⟩
      · exact hn
      · obtain ⟨y, rfl, hy⟩ := Branch.mem_openings hx
        exact ⟨c, .inr hn, hy⟩
      · exact ⟨c, hn, rfl⟩

/-! ## Where a node is written -/

/-- What stands in a branch is one stretch of it. -/
theorem Node.infix_expandAll {n : Node} {ns : List Node} (hn : n ∈ ns) : n.expand <:+: Node.expandAll ns := by
  obtain ⟨before, after, rfl⟩ := List.append_of_mem hn
  rw [Node.expandAll_append, Node.expandAll, ← List.append_assoc]
  exact List.infix_append _ _ _

/-- The writing of a block at one of its branches: what opens the branch, what stands in it, and
what follows. -/
theorem Block.expand_split {b : Block} {before : List Branch} {br : Branch} {after : List Branch}
    (hb : b.branches = before ++ br :: after) :
    ∃ pre x, (Node.block b).expand = pre ++ x :: (br.contents ++ (Branch.expandFrom b.kind b.startOrder (before.length + 1) after ++
        (b.endOrder.map (Block.closing b.startOrder)).toList)) ∧
      x.isBlockEnd = false ∧ (b.Rooted → x.order = br.startOrder) := by
  rw [Block.expand_eq, Block.inside, hb]
  cases before with
  | nil =>
    refine ⟨[], .blockStart { block := b, order := b.startOrder }, ?_, rfl, fun hfirst => ?_⟩
    · simp [Branch.expandFirst]
    · rw [Block.Rooted, hb] at hfirst
      exact (Option.some.inj hfirst).symm
  | cons first before =>
    refine ⟨.blockStart { block := b, order := b.startOrder } :: (first.contents ++
      Branch.expandFrom b.kind b.startOrder 1 before), Branch.opening b.kind b.startOrder (1 + before.length) br, ?_, rfl, fun _ => rfl⟩
    simp [Branch.expandFirst, Branch.expandFrom_append, Branch.expandFrom, Nat.add_comm]

/-- The writing of a node begins with an item of its order. -/
theorem Node.expand_head (n : Node) : ∃ x rest, n.expand = x :: rest ∧ x.order = n.order ∧ x.isBlockEnd = false := by
  cases n with
  | message m => exact ⟨.message m, [], rfl, rfl, rfl⟩
  | note n => exact ⟨.note n, [], rfl, rfl, rfl⟩
  | directive x => exact ⟨.directive x, [], rfl, rfl, rfl⟩
  | block b => exact ⟨_, _, b.expand_eq, rfl, rfl⟩

/-- A node is one stretch of whatever has all the nodes above it as stretches. -/
theorem Node.Under.expand_isInfix {n : Node} {ns : List Node} (hn : n.Under ns) {items : List Statement}
    (h : ∀ k ∈ ns, k.expand <:+: items) : n.expand <:+: items := by
  induction hn with
  | here hn => exact h n hn
  | @inside ns b hb _ ih =>
    refine ih fun k hk => List.IsInfix.trans ?_ (h _ hb)
    obtain ⟨br, hbr, hk⟩ := List.mem_flatMap.1 hk
    obtain ⟨before, after, hsplit⟩ := List.append_of_mem hbr
    obtain ⟨pre, x, hexpand, -⟩ := Block.expand_split hsplit
    rw [hexpand, Branch.contents_eq, List.append_cons]
    exact (Node.infix_expandAll hk).trans ((List.prefix_append _ _).isInfix.trans (List.suffix_append _ _).isInfix)

/-! ## Diagrams that are built -/

theorem Node.own_blockStart {n : Node} {s : BlockStart} (h : .blockStart s ∈ n.own) :
    n = .block s.block ∧ s.order = s.block.startOrder := by
  cases n with
  | message | note | directive => simp [Node.own] at h
  | block b =>
    simp only [Node.own, List.mem_cons, List.mem_append, Option.mem_toList, Option.map_eq_some_iff] at h
    rcases h with h | h | ⟨e, -, h⟩
    · cases h
      exact ⟨rfl, rfl⟩
    · obtain ⟨y, hy, -⟩ := Branch.mem_openings h
      cases hy
    · cases h

/-- The start of the block that an item opens, continues or closes. -/
def Statement.blockOrder? : Statement → Option Int
  | .blockStart s => some s.order
  | .blockBranch x => some x.blockOrder
  | .blockEnd e => some e.blockOrder
  | _ => none

theorem Node.own_blockOrder {n : Node} {x : Statement} {start : Int} (h : x ∈ n.own) (hx : x.blockOrder? = some start) :
    ∃ c : Block, n = .block c ∧ c.startOrder = start := by
  cases n with
  | message | note | directive =>
    obtain rfl := List.mem_singleton.1 h
    cases hx
  | block c =>
    refine ⟨c, rfl, Option.some.inj (.trans ?_ hx)⟩
    simp only [Node.own, List.mem_cons, List.mem_append, Option.mem_toList, Option.map_eq_some_iff] at h
    rcases h with rfl | h | ⟨e, -, rfl⟩
    · rfl
    · obtain ⟨y, rfl, hy⟩ := Branch.mem_openings h
      exact congrArg some hy.symm
    · rfl

theorem Node.Under.mem_allBlocks {b : Block} {ns : List Node} (h : Node.Under (.block b) ns) : b ∈ Node.allBlocks ns := by
  have hstart : Statement.blockStart { block := b, order := b.startOrder } ∈ Node.expandAll ns :=
    Node.mem_expandAll_iff.2 ⟨.block b, h, List.mem_cons_self⟩
  have hopened := List.mem_filterMap.2 ⟨_, hstart, show Statement.opened? _ = some (b.startOrder, b) from rfl⟩
  rw [Node.opened_expandAll] at hopened
  obtain ⟨c, hc, he⟩ := List.mem_map.1 hopened
  obtain rfl := (Prod.mk.inj he).2
  exact hc

/-- Whether the order of one item is below that of another, or both are ends of blocks that are put
at the end of the timeline. -/
def Statement.Before (stop : Int) (x y : Statement) : Prop :=
  x.order < y.order ∨ (x.isBlockEnd = true ∧ y.isBlockEnd = true) ∧ x.order = stop ∧ y.order = stop

theorem Statement.Before.lt {stop : Int} {x y : Statement} (h : x.Before stop y)
    (hend : x.isBlockEnd = false ∨ y.isBlockEnd = false) : x.order < y.order := by
  refine h.resolve_right ?_
  rintro ⟨⟨hx, hy⟩, -⟩
  rcases hend with hend | hend
  · exact Bool.false_ne_true (hend.symm.trans hx)
  · exact Bool.false_ne_true (hend.symm.trans hy)

theorem Statement.Before.le {stop : Int} {x y : Statement} (h : x.Before stop y) : x.order ≤ y.order := by
  rcases h with h | ⟨-, hx, hy⟩ <;> omega

/-- A diagram whose tree is its timeline with the ends of some blocks behind it. -/
structure Diagram.Plotted (m : Diagram) : Prop where
  written : ∃ starts : List Int,
    Node.expandAll m.statements = m.timeline ++ starts.map fun start => Block.closing start m.timeline.length
  orders : m.timeline.map Statement.order = (List.range m.timeline.length).map Int.ofNat
  blocks : ∀ b ∈ Node.allBlocks m.statements, b.Rooted ∧ b.endOrder.isSome = true

namespace Diagram.Plotted

variable {m : Diagram} {b c : Block} {x : Statement} {stop : Int}

theorem order_getElem (h : m.Plotted) {i : Nat} (hi : i < m.timeline.length) : m.timeline[i].order = i := by
  have := congrArg (·[i]?) h.orders
  simpa [List.getElem?_eq_getElem hi, hi] using this

theorem mem_tree (h : m.Plotted) (hx : x ∈ m.timeline) : x ∈ Node.expandAll m.statements := by
  obtain ⟨starts, hw⟩ := h.written
  exact hw ▸ List.mem_append_left _ hx

theorem mem_timeline (h : m.Plotted) (hx : x ∈ Node.expandAll m.statements) (he : x.isBlockEnd = false) :
    x ∈ m.timeline := by
  obtain ⟨starts, hw⟩ := h.written
  refine (List.mem_append.1 (hw ▸ hx)).resolve_right fun hend => ?_
  obtain ⟨start, -, rfl⟩ := List.mem_map.1 hend
  cases he

/-- The items of the tree stand in order. -/
theorem rising (h : m.Plotted) : (Node.expandAll m.statements).Pairwise (Statement.Before m.timeline.length) := by
  obtain ⟨starts, hw⟩ := h.written
  rw [hw, List.pairwise_append]
  refine ⟨?_, ?_, ?_⟩
  · have hlt : (m.timeline.map Statement.order).Pairwise (· < ·) := by
      rw [h.orders, List.pairwise_map]
      exact List.pairwise_lt_range.imp fun hlt => Int.ofNat_lt.2 hlt
    exact (List.pairwise_map.1 hlt).imp fun hlt => .inl hlt
  · exact List.pairwise_map.2 (List.pairwise_of_forall fun _ _ => .inr ⟨⟨rfl, rfl⟩, rfl, rfl⟩)
  · intro x hx y hy
    obtain ⟨start, -, rfl⟩ := List.mem_map.1 hy
    obtain ⟨i, hi, rfl⟩ := List.getElem_of_mem hx
    refine .inl ?_
    rw [h.order_getElem hi]
    exact Int.ofNat_lt.2 hi

/-- The blocks of the timeline are those of the tree. -/
theorem mem_blocks (h : m.Plotted) : b ∈ m.blocks ↔ Node.Under (.block b) m.statements := by
  constructor
  · intro hb
    obtain ⟨x, hx, hb⟩ := List.mem_filterMap.1 hb
    cases x with
    | blockStart s =>
      obtain ⟨n, hn, hs⟩ := Node.mem_expandAll_iff.1 (h.mem_tree hx)
      obtain ⟨rfl, -⟩ := Node.own_blockStart hs
      cases hb
      exact hn
    | _ => cases hb
  · intro hb
    have hstart := Node.mem_expandAll_iff.2 ⟨_, hb, List.mem_cons_self⟩
    exact List.mem_filterMap.2 ⟨_, h.mem_timeline hstart rfl, rfl⟩

/-- Blocks are told apart by their starts. -/
theorem block_inj (h : m.Plotted) (hb : Node.Under (.block b) m.statements) (hc : Node.Under (.block c) m.statements)
    (he : b.startOrder = c.startOrder) : b = c := by
  obtain ⟨starts, hw⟩ := h.written
  have hends : (starts.map fun start => Block.closing start m.timeline.length).filterMap Statement.opened? = [] := by
    rw [List.filterMap_map]
    exact List.filterMap_eq_nil_iff.2 fun _ _ => rfl
  have hn : ((Node.allBlocks m.statements).map Block.startOrder).Nodup := by
    rw [Node.starts_expandAll, hw, List.filterMap_append, hends, List.append_nil]
    refine Statement.nodup_opened ?_
    rw [h.orders]
    exact List.nodup_range.map fun _ _ => Int.ofNat.inj
  exact List.inj_on_of_nodup_map hn hb.mem_allBlocks hc.mem_allBlocks he

theorem ended (h : m.Plotted) (hb : Node.Under (.block b) m.statements) : ∃ stop, b.endOrder = some stop :=
  Option.isSome_iff_exists.1 (h.blocks b hb.mem_allBlocks).2

/-- A block is one stretch of the tree: its start, what is inside it, and its end. -/
theorem split (hb : Node.Under (.block b) m.statements) (hstop : b.endOrder = some stop) : ∃ pre post,
    Node.expandAll m.statements = pre ++ .blockStart { block := b, order := b.startOrder } ::
      (b.inside ++ Block.closing b.startOrder stop :: post) := by
  obtain ⟨pre, post, hw⟩ := hb.expand_isInfix fun _ => Node.infix_expandAll
  refine ⟨pre, post, ?_⟩
  rw [← hw, Block.expand_eq, hstop]
  simp

/-- What stands around an item of the tree stands in order with it. -/
theorem around (h : m.Plotted) {before after : List Statement}
    (hw : Node.expandAll m.statements = before ++ x :: after) :
    (∀ y ∈ before, y.Before m.timeline.length x) ∧ ∀ y ∈ after, x.Before m.timeline.length y := by
  have hrising := h.rising
  rw [hw, List.pairwise_append, List.pairwise_cons] at hrising
  exact ⟨fun y hy => hrising.2.2 y hy x List.mem_cons_self, hrising.2.1.1⟩

theorem split_end {items pre post inside : List Statement} {start close : Statement}
    (hw : items = pre ++ start :: (inside ++ close :: post)) : items = (pre ++ start :: inside) ++ close :: post := by
  rw [hw, List.append_assoc, List.cons_append]

/-- What is inside a block stands between its start and its end. -/
theorem between (h : m.Plotted) (hb : Node.Under (.block b) m.statements) (hstop : b.endOrder = some stop)
    (hx : x ∈ b.inside) : b.startOrder < x.order ∧ x.Before m.timeline.length (Block.closing b.startOrder stop) := by
  obtain ⟨pre, post, hw⟩ := split hb hstop
  refine ⟨((h.around hw).2 x (List.mem_append_left _ hx)).lt (.inl rfl), ?_⟩
  exact (h.around (split_end hw)).1 x (List.mem_append_right _ (List.mem_cons_of_mem _ hx))

/-- What is not inside a block stands no later than its start or no earlier than its end. -/
theorem inside_or_apart (h : m.Plotted) (hb : Node.Under (.block b) m.statements) (hstop : b.endOrder = some stop)
    (hx : x ∈ Node.expandAll m.statements) : x ∈ b.inside ∨ x.order ≤ b.startOrder ∨ stop ≤ x.order := by
  obtain ⟨pre, post, hw⟩ := split hb hstop
  have hstart := (h.around hw).1 x
  have hend := (h.around (split_end hw)).2 x
  rw [hw] at hx
  simp only [List.mem_append, List.mem_cons] at hx
  rcases hx with hx | rfl | hx | rfl | hx
  · exact .inr (.inl (hstart hx).le)
  · exact .inr (.inl (Int.le_refl _))
  · exact .inl hx
  · exact .inr (.inr (Int.le_refl _))
  · exact .inr (.inr (hend hx).le)

/-- An item of the timeline is in the extent of a block if and only if it stands inside it. -/
theorem contains_iff (h : m.Plotted) (hb : Node.Under (.block b) m.statements) {i : Nat} (hi : i < m.timeline.length) :
    b.contains i = true ↔ m.timeline[i] ∈ b.inside := by
  obtain ⟨stop, hstop⟩ := h.ended hb
  have horder := h.order_getElem hi
  simp only [Block.contains, hstop, Option.all_some, Bool.and_eq_true, decide_eq_true_iff]
  constructor
  · rintro ⟨hlow, hhigh⟩
    refine (h.inside_or_apart hb hstop (h.mem_tree (List.getElem_mem hi))).resolve_right ?_
    omega
  · intro hinside
    have hi' : (i : Int) < m.timeline.length := Int.ofNat_lt.2 hi
    obtain ⟨hlow, hhigh | ⟨-, hlast, -⟩⟩ := h.between hb hstop hinside
    · exact ⟨horder ▸ hlow, horder ▸ hhigh⟩
    · omega

/-- An item of the timeline stands inside a block if and only if the block holds it. -/
theorem holds_iff (h : m.Plotted) (hb : Node.Under (.block b) m.statements) (hx : x ∈ m.timeline) :
    b.Holds x ↔ x ∈ b.inside := by
  refine ⟨fun hholds => ?_, Block.holds_of_mem⟩
  obtain ⟨k, hk, hown⟩ := Node.mem_expandAll_iff.1 (h.mem_tree hx)
  have hblock : ∀ {d : Block}, x.blockOrder? = some d.startOrder → Node.Under (.block d) m.statements →
      x ∈ (Node.block d).own := by
    intro d ho hd
    obtain ⟨c, rfl, hc⟩ := Node.own_blockOrder hown ho
    exact h.block_inj hk hd hc ▸ hown
  cases x with
  | message | note | directive => exact Block.mem_inside_of_under hholds List.mem_cons_self
  | blockStart s =>
    obtain ⟨rfl, hs⟩ := Node.own_blockStart hown
    exact Block.mem_inside_of_under hholds hown
  | blockBranch y =>
    obtain ⟨d, rfl | hd, hy⟩ := hholds
    · have hown := hblock (congrArg some hy) hb
      simp only [Node.own, List.mem_cons, List.mem_append, Option.mem_toList, Option.map_eq_some_iff] at hown
      rcases hown with hown | hown | ⟨e, -, hown⟩
      · cases hown
      · exact Block.mem_inside.2 (.inl hown)
      · cases hown
    · exact Block.mem_inside_of_under hd (hblock (congrArg some hy) (hb.trans hd))
  | blockEnd e =>
    obtain ⟨d, hd, he⟩ := hholds
    exact Block.mem_inside_of_under hd (hblock (congrArg some he) (hb.trans hd))
  | _ => exact hholds.elim

/-- Of two blocks the later one ends with the other at the latest, or starts when that one has
ended. -/
theorem ends_or_after (h : m.Plotted) (hb : Node.Under (.block b) m.statements) (hc : Node.Under (.block c) m.statements)
    {e f : Int} (he : b.endOrder = some e) (hf : c.endOrder = some f) (hle : b.startOrder ≤ c.startOrder) :
    f ≤ e ∨ e ≤ c.startOrder := by
  rcases hle.eq_or_lt with heq | hlt
  · obtain rfl := h.block_inj hb hc heq
    exact .inl (Option.some.inj (hf.symm.trans he)).le
  · refine or_iff_not_imp_right.2 fun hlate => ?_
    have hstart := h.mem_timeline (Node.mem_expandAll_iff.2 ⟨_, hc, List.mem_cons_self⟩) rfl
    obtain ⟨i, hi, hget⟩ := List.getElem_of_mem hstart
    have horder : c.startOrder = i := by
      rw [← h.order_getElem hi, hget]
      rfl
    have hcontains : b.contains i = true := by
      simp only [Block.contains, he, Option.all_some, Bool.and_eq_true, decide_eq_true_iff]
      omega
    have hunder : Node.Under (.block c) b.statements := by
      have hholds := Block.holds_of_mem ((h.contains_iff hb hi).1 hcontains)
      rwa [hget] at hholds
    have hclosing : Block.closing c.startOrder f ∈ b.inside := Block.mem_inside_of_under hunder (by simp [Node.own, hf])
    exact (h.between hb he hclosing).2.le

theorem nests (h : m.Plotted) (hb : Node.Under (.block b) m.statements) (hc : Node.Under (.block c) m.statements) :
    b.Nests c := by
  obtain ⟨e, he⟩ := h.ended hb
  obtain ⟨f, hf⟩ := h.ended hc
  refine ⟨e, f, he, hf, ?_⟩
  rcases le_total b.startOrder c.startOrder with hle | hle
  · have := h.ends_or_after hb hc he hf hle
    tauto
  · have := h.ends_or_after hc hb hf he hle
    tauto

theorem rising_block (h : m.Plotted) (hb : Node.Under (.block b) m.statements) :
    (Node.block b).expand.Pairwise (Statement.Before m.timeline.length) :=
  h.rising.sublist (hb.expand_isInfix fun _ => Node.infix_expandAll).sublist

/-- The branches of a block start one after the other. -/
theorem rising_branches (h : m.Plotted) (hb : Node.Under (.block b) m.statements) :
    (b.branches.map Branch.startOrder).Pairwise (· < ·) := by
  have hfirst := (h.blocks b hb.mem_allBlocks).1
  cases hbs : b.branches with
  | nil => exact .nil
  | cons br bs =>
    have hsub : (.blockStart { block := b, order := b.startOrder } :: Branch.openings b.kind b.startOrder 1 bs).Sublist
        (Node.block b).expand := by
      rw [Block.expand_eq, Block.inside, hbs, Branch.expandFirst, List.append_assoc]
      refine (List.Sublist.trans ?_ (List.sublist_append_right _ _)).cons_cons _
      exact (Branch.openings_sublist _ _ _ _).trans (List.sublist_append_left _ _)
    have horders : (br :: bs).map Branch.startOrder = (Statement.blockStart { block := b, order := b.startOrder } ::
        Branch.openings b.kind b.startOrder 1 bs).map Statement.order := by
      rw [List.map_cons, List.map_cons, Branch.order_openings]
      rw [Block.Rooted, hbs] at hfirst
      exact congrArg (· :: _) (Option.some.inj hfirst)
    rw [horders, List.pairwise_map]
    refine ((h.rising_block hb).sublist hsub).imp_of_mem fun hx _ hxy => hxy.lt (.inl ?_)
    rcases List.mem_cons.1 hx with rfl | hx
    · rfl
    · obtain ⟨y, rfl, -⟩ := Branch.mem_openings hx
      rfl

/-- The branches of a block lie one behind the other. -/
theorem branches_inOrder (h : m.Plotted) (hb : Node.Under (.block b) m.statements) : ∃ stop, b.InOrder stop := by
  have hfirst := (h.blocks b hb.mem_allBlocks).1
  obtain ⟨stop, hstop⟩ := h.ended hb
  refine ⟨stop, hstop, hfirst, h.rising_branches hb, ?_⟩
  intro before br after hsplit n hn
  obtain ⟨pre, x, hw, hx, hbr⟩ := Block.expand_split hsplit
  -- What follows the branch is the opening of the next one, or the end of the block.
  obtain ⟨y, rest, hfollow, hy, hnext⟩ : ∃ y rest, Branch.expandFrom b.kind b.startOrder (before.length + 1) after ++
      (b.endOrder.map (Block.closing b.startOrder)).toList = y :: rest ∧
      y.order = (after.head?.map Branch.startOrder).getD stop ∧
      ∀ next ∈ after.head?, y.order = next.startOrder ∧ y.isBlockEnd = false := by
    rw [hstop]
    cases after with
    | nil => exact ⟨_, _, rfl, rfl, nofun⟩
    | cons next after =>
      refine ⟨_, _, rfl, rfl, ?_⟩
      rintro _ ⟨⟩
      exact ⟨rfl, rfl⟩
  have hrising := h.rising_block hb
  rw [hw, hfollow, List.pairwise_append, List.pairwise_cons, List.pairwise_append] at hrising
  obtain ⟨-, ⟨hafter, -, -, hbefore⟩, -⟩ := hrising
  have hstretch : n.expand <:+: br.contents := Branch.contents_eq br ▸ Node.infix_expandAll hn
  obtain ⟨z, more, hhead, hz, hzend⟩ := n.expand_head
  have hzmem : z ∈ br.contents := hstretch.subset (hhead ▸ List.mem_cons_self)
  rw [← hbr hfirst, ← hy, ← hz]
  refine ⟨(hafter z (List.mem_append_left _ hzmem)).lt (.inl hx), (hbefore z hzmem y List.mem_cons_self).lt (.inl hzend), ?_⟩
  rintro c rfl
  have hchild : Node.block c ∈ b.statements := by
    rw [Block.statements, hsplit]
    exact List.mem_flatMap.2 ⟨br, List.mem_append_right _ List.mem_cons_self, hn⟩
  obtain ⟨f, hf⟩ := h.ended (hb.trans (.here hchild))
  have hclosing : Block.closing c.startOrder f ∈ b.inside := Block.mem_inside_of_under (.here hchild) (by simp [Node.own, hf])
  refine ⟨f, hf, (h.between hb hstop hclosing).2.le, fun next hmem => ?_⟩
  obtain ⟨horder, hopening⟩ := hnext next hmem
  have hmem : Block.closing c.startOrder f ∈ br.contents := hstretch.subset (by simp [Block.expand_eq, hf])
  exact horder ▸ (hbefore _ hmem y List.mem_cons_self).lt (.inr hopening)

end Diagram.Plotted

/-! ## The tree of a draft -/

theorem Block.Rooted.hang {b : Block} (h : b.Rooted) (n : Node) : (b.hang n).Rooted := by
  have hhead : ∀ bs : List Branch, (Branch.hang n bs).head?.map Branch.startOrder = bs.head?.map Branch.startOrder := by
    intro bs
    cases bs with
    | nil => rfl
    | cons b bs => cases bs <;> rfl
  exact (hhead b.branches).trans h

theorem Block.Rooted.addBranch {b : Block} (h : b.Rooted) (label : Option String) (order : Int) :
    (b.addBranch label order).Rooted := by
  unfold Block.Rooted Block.addBranch at *
  cases hb : b.branches with
  | nil => simp [hb] at h
  | cons c cs => simpa [hb] using h

namespace Growth

/-- A tree that grows and of which all blocks start with their first branches. -/
structure AllRooted (g : Growth) : Prop where
  path : ∀ b ∈ g.path, b.Rooted
  finished : ∀ c ∈ g.finished, c.Rooted

theorem AllRooted.hang {g : Growth} (h : g.AllRooted) (hg : ∀ b ∈ g.path, b.Headed) {n : Node}
    (hn : ∀ c ∈ n.blocks, c.Rooted) : (g.hang n).AllRooted := by
  refine ⟨?_, fun c hc => ((mem_finished_hang hg n c).1 hc).elim (h.finished c) (hn c)⟩
  have hpath := h.path
  obtain ⟨roots, path⟩ := g
  cases path with
  | nil => exact hpath
  | cons b outer =>
    obtain ⟨hb, houter⟩ := List.forall_mem_cons.1 hpath
    exact List.forall_mem_cons.2 ⟨hb.hang n, houter⟩

theorem rooted_ofPast {past : List Statement} (h : History past) : (ofPast past).AllRooted := by
  induction past with
  | nil => exact ⟨by simp [ofPast], by simp [ofPast, finished, Node.allBlocks]⟩
  | cons item older ih =>
    have hrooted := ih h.2
    obtain ⟨hpath, hfinished⟩ := ih h.2
    have hhead := headed_ofPast h.2
    rw [ofPast]
    cases item with
    | message | note | directive => exact hrooted.hang hhead (by simp [Node.blocks])
    | blockStart s =>
      refine ⟨List.forall_mem_cons.2 ⟨rfl, hpath⟩, ?_⟩
      simpa [step, finished, Block.opened, Block.inner, Branch.allBlocks, Branch.blocks, Node.allBlocks] using hfinished
    | blockBranch x =>
      cases hp : (ofPast older).path with
      | nil => simpa only [step, hp] using hrooted
      | cons inner outer =>
        obtain ⟨hinner, houter⟩ := List.forall_mem_cons.1 (hp ▸ hpath)
        simp only [step, hp]
        refine ⟨List.forall_mem_cons.2 ⟨hinner.addBranch x.label x.order, houter⟩, ?_⟩
        simpa only [finished, hp, List.flatMap_cons, Block.inner_addBranch] using hfinished
    | blockEnd e =>
      cases hp : (ofPast older).path with
      | nil => simpa only [step, hp] using hrooted
      | cons inner outer =>
        obtain ⟨hinner, houter⟩ := List.forall_mem_cons.1 (hp ▸ hpath)
        simp only [finished, hp, List.flatMap_cons, List.mem_append] at hfinished
        simp only [step, hp]
        refine AllRooted.hang ⟨houter, fun c hc => hfinished c ?_⟩ (fun b hb => hhead b (by simp [hp, hb])) ?_
        · exact (List.mem_append.1 hc).imp_right .inr
        · rw [Node.blocks, Block.inner_end]
          exact List.forall_mem_cons.2 ⟨hinner, fun c hc => hfinished c (.inr (.inl hc))⟩
    | _ => exact hrooted

/-- Hung together with an end, the blocks of a path all have one. -/
theorem enclose_ended {inner : Block} {outer : List Block} {stop : Int} (h : ∀ b ∈ inner :: outer, b.Headed ∧ b.Rooted ∧
    ∀ c ∈ b.inner, c.Rooted ∧ c.endOrder.isSome = true) :
    ∀ c ∈ (enclose (some stop) inner outer).blocks, c.Rooted ∧ c.endOrder.isSome = true := by
  induction outer generalizing inner with
  | nil =>
    obtain ⟨-, hrooted, hin⟩ := h inner List.mem_cons_self
    rw [enclose, Node.blocks, Block.inner_end]
    exact List.forall_mem_cons.2 ⟨⟨hrooted, rfl⟩, hin⟩
  | cons b outer ih =>
    obtain ⟨⟨-, hrooted, hin⟩, ⟨hhead, hbrooted, hbin⟩, houter⟩ := by simpa only [List.forall_mem_cons] using h
    refine ih (List.forall_mem_cons.2 ⟨⟨hhead.hang _, hbrooted.hang _, ?_⟩, houter⟩)
    rw [Block.inner_hang hhead, Node.blocks, Block.inner_end]
    exact List.forall_mem_append.2 ⟨hbin, List.forall_mem_cons.2 ⟨⟨hrooted, rfl⟩, hin⟩⟩

end Growth

namespace Draft

theorem plotted_build {d : Draft} (ha : d.Aligned) : d.build.Plotted := by
  have hgrown := grown_ofPast ha.history
  have hrooted := Growth.rooted_ofPast ha.history
  have hlength : d.build.timeline.length = d.nextOrder := by simp [build, timeline, nextOrder]
  refine ⟨⟨(Growth.ofPast d.past).path.map Block.startOrder, ?_⟩, build_orders_eq ha, ?_⟩
  · have hbare := hgrown.nodes_closed d.nextOrder
    have hends : ((Growth.ofPast d.past).path.map fun b => Block.closing b.startOrder d.nextOrder).filterMap
        Statement.opened? = [] := by
      rw [List.filterMap_map]
      exact List.filterMap_eq_nil_iff.2 fun _ _ => rfl
    have hn : (d.past.reverse.map Statement.order).Nodup := by
      rw [History.orders ha.history]
      exact List.nodup_range.map fun _ _ => Int.ofNat.inj
    have hfill := Node.map_fillIn hbare (by
      rw [List.filterMap_append, hends, List.append_nil]
      exact Statement.nodup_opened hn)
    rw [← ha.statements_build] at hfill
    rw [hlength]
    refine hfill.symm.trans ?_
    rw [List.map_append, List.map_map, List.map_map]
    rfl
  · have hroots : ∀ c ∈ Node.allBlocks (Growth.ofPast d.past).roots, c.Rooted ∧ c.endOrder.isSome = true := fun c hc =>
      ⟨hrooted.finished c (List.mem_append_left _ hc), (hgrown.roots c hc).2⟩
    have hpath : ∀ b ∈ (Growth.ofPast d.past).path, b.Headed ∧ b.Rooted ∧ ∀ c ∈ b.inner, c.Rooted ∧ c.endOrder.isSome = true :=
      fun b hb => ⟨(hgrown.headed b hb).1, hrooted.path b hb, fun c hc =>
        ⟨hrooted.finished c (List.mem_append_right _ (List.mem_flatMap.2 ⟨b, hb, hc⟩)), (hgrown.within b hb c hc).2⟩⟩
    rw [ha.statements_build]
    unfold Growth.nodes
    cases hp : (Growth.ofPast d.past).path with
    | nil => exact hroots
    | cons inner outer =>
      simp only [Node.allBlocks_append, Node.allBlocks, List.append_nil, List.forall_mem_append]
      exact ⟨hroots, Growth.enclose_ended (hp ▸ hpath)⟩

/-- In every diagram that operations build, the blocks of the timeline are those of the tree, and
an item of the timeline is in the extent of a block if and only if the block holds it. So of two
blocks one lies within the other, or both lie apart, and the branches of a block lie one behind
the other, each around what stands in it. -/
theorem extents_agree (ops : List Operation) :
    let m := (run {} ops).build
    (∀ b, b ∈ m.blocks ↔ Node.Under (.block b) m.statements) ∧
      (∀ b ∈ m.blocks, ∀ i (hi : i < m.timeline.length), b.contains i = true ↔ b.Holds m.timeline[i]) ∧
      (∀ b ∈ m.blocks, ∀ c ∈ m.blocks, b.Nests c) ∧
      ∀ b ∈ m.blocks, ∃ stop, b.InOrder stop := by
  intro m
  have h : m.Plotted := plotted_build (aligned_run ops)
  refine ⟨fun b => h.mem_blocks, fun b hb i hi => ?_, fun b hb c hc => ?_, fun b hb => ?_⟩
  · have hunder := h.mem_blocks.1 hb
    exact (h.contains_iff hunder hi).trans (h.holds_iff hunder (List.getElem_mem hi)).symm
  · exact h.nests (h.mem_blocks.1 hb) (h.mem_blocks.1 hc)
  · exact h.branches_inOrder (h.mem_blocks.1 hb)

end Draft

end Lifeline
