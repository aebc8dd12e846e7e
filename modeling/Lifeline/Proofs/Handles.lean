import Lifeline.Proofs.Expansion
/-!
# Changes through a handle

A tree is changed by the orders of its nodes, wherever they stand. In a tree that has grown along
a timeline every order is there once, so that a change at the place where the tree grows is that
change and nothing else (`Grown.changeAll_hang`, `Grown.changeAll_inner`). The current branch of
an open block is the one that the timeline opened last, and both take the same longer label
(`Growth.ofPast_grow`).
-/

namespace Lifeline

open History

/-! ## Changes in a tree -/

/-- A change that leaves the nodes alone that have one of the given orders and are, if they are
blocks, among the given ones. -/
def Node.Spares (f : Node → Node) (orders : List Int) (blocks : List Block) : Prop :=
  ∀ n : Node, n.order ∈ orders → (∀ b, n = .block b → b ∈ blocks) → f n = n

theorem Node.Spares.mono {f : Node → Node} {orders orders' : List Int} {blocks blocks' : List Block}
    (h : Node.Spares f orders blocks) (ho : orders' ⊆ orders) (hb : blocks' ⊆ blocks) : Node.Spares f orders' blocks' :=
  fun n hn hblock => h n (ho hn) fun b he => hb (hblock b he)

/-- The orders of the items that a tree is written out as. -/
def Node.orders (ns : List Node) : List Int := (Node.expandAll ns).map Statement.order

section Map

variable {f : Node → Node}

mutual

theorem Node.map_of_spares : (n : Node) → Node.Spares f (n.expand.map Statement.order) n.blocks → n.map f = n
  | .message _, h => h _ (by simp [Node.expand, Node.order, Statement.order]) nofun
  | .note _, h => h _ (by simp [Node.expand, Node.order, Statement.order]) nofun
  | .directive _, h => h _ (by simp [Node.expand, Node.order, Statement.order]) nofun
  | .block b, h => by
    rw [Node.map, Block.mapInside_of_spares b (h.mono (by simp [Node.expand]) (by simp [Node.blocks]))]
    refine h _ (by simp [Node.expand, Node.order, Statement.order]) fun c he => ?_
    rw [← Node.block.inj he]
    simp [Node.blocks]

theorem Block.mapInside_of_spares : (b : Block) → Node.Spares f (b.body.map Statement.order) b.inner → b.mapInside f = b
  | ⟨kind, _, _, branches, start, _⟩, h => by
    simp only [Block.mapInside, Block.body, Block.inner] at h ⊢
    rw [Branch.mapAll_of_spares_first kind start branches (h.mono (by simp) fun _ => id)]

theorem Branch.map_of_spares : (b : Branch) → Node.Spares f (b.contents.map Statement.order) b.blocks → b.map f = b
  | ⟨_, _, statements⟩, h => by rw [Branch.map, Node.mapAll_of_spares statements h]

theorem Branch.mapAll_of_spares_first (kind : BlockKind) (start : Int) : (bs : List Branch) →
    Node.Spares f ((Branch.expandFirst kind start bs).map Statement.order) (Branch.allBlocks bs) → Branch.mapAll f bs = bs
  | [], _ => rfl
  | b :: bs, h => by
    rw [Branch.mapAll, Branch.map_of_spares b (h.mono (by simp [Branch.expandFirst]) (by simp [Branch.allBlocks])),
      Branch.mapAll_of_spares kind start 1 bs (h.mono (by simp [Branch.expandFirst]) (by simp [Branch.allBlocks]))]

theorem Branch.mapAll_of_spares (kind : BlockKind) (start : Int) (index : Nat) : (bs : List Branch) →
    Node.Spares f ((Branch.expandFrom kind start index bs).map Statement.order) (Branch.allBlocks bs) →
    Branch.mapAll f bs = bs
  | [], _ => rfl
  | b :: bs, h => by
    have hrest : Node.Spares f (b.contents.map Statement.order ++
        (Branch.expandFrom kind start (index + 1) bs).map Statement.order) (Branch.allBlocks (b :: bs)) :=
      h.mono (by simp [Branch.expandFrom]) fun _ => id
    rw [Branch.mapAll, Branch.map_of_spares b (hrest.mono (by simp) (by simp [Branch.allBlocks])),
      Branch.mapAll_of_spares kind start (index + 1) bs (hrest.mono (by simp) (by simp [Branch.allBlocks]))]

/-- A change that spares all that stands in a tree changes nothing. -/
theorem Node.mapAll_of_spares : (ns : List Node) → Node.Spares f (Node.orders ns) (Node.allBlocks ns) →
    Node.mapAll f ns = ns
  | [], _ => rfl
  | n :: ns, h => by
    rw [Node.mapAll, Node.map_of_spares n (h.mono (by simp [Node.orders, Node.expandAll]) (by simp [Node.allBlocks])),
      Node.mapAll_of_spares ns (h.mono (by simp [Node.orders, Node.expandAll]) (by simp [Node.allBlocks]))]

end

theorem Node.mapAll_append (ns ms : List Node) : Node.mapAll f (ns ++ ms) = Node.mapAll f ns ++ Node.mapAll f ms := by
  induction ns with
  | nil => rfl
  | cons n ns ih => simp [Node.mapAll, ih]

theorem Branch.mapAll_hang (n : Node) (bs : List Branch) :
    Branch.mapAll f (Branch.hang n bs) = Branch.hang (n.map f) (Branch.mapAll f bs) := by
  induction bs with
  | nil => rfl
  | cons b bs ih =>
    cases bs with
    | nil =>
      cases b
      simp [Branch.hang, Branch.changeLast, Branch.mapAll, Branch.map, Node.mapAll_append, Node.mapAll]
    | cons c cs =>
      simp only [Branch.hang, Branch.changeLast, Branch.mapAll] at ih ⊢
      rw [ih]

theorem Block.mapInside_hang (b : Block) (n : Node) : (b.hang n).mapInside f = (b.mapInside f).hang (n.map f) := by
  cases b
  simp only [Block.hang, Block.mapInside, Branch.mapAll_hang]

theorem Block.mapInside_end (b : Block) (stop : Option Int) :
    ({ b with endOrder := stop } : Block).mapInside f = { b.mapInside f with endOrder := stop } := by
  cases b
  rfl

end Map

section Blocks

variable {change : Block → Block}

mutual

theorem Node.blocks_map (h : ∀ b, (change b).inner = b.inner) : (n : Node) →
    (n.map (Node.onBlock change)).blocks = n.blocks.map fun b => change (b.mapInside (Node.onBlock change))
  | .message _ => rfl
  | .note _ => rfl
  | .directive _ => rfl
  | .block b => by simp [Node.map, Node.onBlock, Node.blocks, h, Block.inner_mapInside h b]

theorem Block.inner_mapInside (h : ∀ b, (change b).inner = b.inner) : (b : Block) →
    (b.mapInside (Node.onBlock change)).inner = b.inner.map fun b => change (b.mapInside (Node.onBlock change))
  | ⟨_, _, _, branches, _, _⟩ => Branch.allBlocks_mapAll h branches

theorem Branch.blocks_map (h : ∀ b, (change b).inner = b.inner) : (b : Branch) →
    (b.map (Node.onBlock change)).blocks = b.blocks.map fun b => change (b.mapInside (Node.onBlock change))
  | ⟨_, _, statements⟩ => Node.allBlocks_mapAll h statements

theorem Branch.allBlocks_mapAll (h : ∀ b, (change b).inner = b.inner) : (bs : List Branch) →
    Branch.allBlocks (Branch.mapAll (Node.onBlock change) bs) =
      (Branch.allBlocks bs).map fun b => change (b.mapInside (Node.onBlock change))
  | [] => rfl
  | b :: bs => by simp [Branch.mapAll, Branch.allBlocks, Branch.blocks_map h b, Branch.allBlocks_mapAll h bs]

/-- The blocks of a tree after a change of blocks that does not look at what is inside them. -/
theorem Node.allBlocks_mapAll (h : ∀ b, (change b).inner = b.inner) : (ns : List Node) →
    Node.allBlocks (Node.mapAll (Node.onBlock change) ns) =
      (Node.allBlocks ns).map fun b => change (b.mapInside (Node.onBlock change))
  | [] => rfl
  | n :: ns => by simp [Node.mapAll, Node.allBlocks, Node.blocks_map h n, Node.allBlocks_mapAll h ns]

end

end Blocks

/-- What stands at no order of a tree is not changed by a change at that order. -/
theorem Node.spares_at {order : Int} {change : Node → Node} {orders : List Int} (h : order ∉ orders) (blocks : List Block) :
    Node.Spares (Node.at order change) orders blocks := by
  intro n hn _
  have hne : (n.order == order) = false := by
    rw [beq_eq_false_iff_ne]
    exact fun he => h (he ▸ hn)
  simp [Node.at, hne]

theorem Statement.order_bare (item : Statement) : item.bare.order = item.order := by cases item <;> rfl

/-- The orders of what is written of a block so far. -/
theorem Block.orders_soFar (b : Block) : b.soFar.map Statement.order =
    b.startOrder :: (Branch.expandFirst b.kind b.startOrder b.branches).map Statement.order := by
  simp only [Block.soFar, List.map_cons, List.map_map, Statement.bare, Statement.order]
  exact congrArg _ (List.map_congr_left fun item _ => Statement.order_bare item)

/-- What is written of an open block so far is what stands in it. -/
theorem Block.body_open {b : Block} (h : b.endOrder = none) :
    b.body = Branch.expandFirst b.kind b.startOrder b.branches := by
  cases b
  simp only at h
  simp [Block.body, h]

section At

variable {order : Int} {change : Node → Node}

/-- A change at an order that is not in an open block leaves the block alone. -/
theorem Block.mapInside_at {b : Block} (h : b.endOrder = none) (ho : order ∉ b.soFar.map Statement.order) :
    b.mapInside (Node.at order change) = b := by
  refine Block.mapInside_of_spares b (Node.spares_at ?_ _)
  rw [Block.body_open h]
  rw [Block.orders_soFar] at ho
  exact fun hm => ho (List.mem_cons_of_mem _ hm)

/-- A change of what hangs in an open block, at an order that is nowhere else in the block. -/
theorem Block.map_hang {b : Block} {n n' : Node} (hn : n.map (Node.at order change) = n') (h : b.endOrder = none)
    (ho : order ∉ b.soFar.map Statement.order) :
    (Node.block { b.hang n with endOrder := none }).map (Node.at order change) =
      .block { b.hang n' with endOrder := none } := by
  have hstart : b.startOrder ≠ order := by
    rw [Block.orders_soFar] at ho
    exact fun he => ho (by simp [he])
  rw [Node.map, Block.mapInside_end, Block.mapInside_hang, Block.mapInside_at h ho, hn]
  simp [Node.at, Node.order, Block.hang, hstart]

/-- The same for a block with open blocks around it. -/
theorem Growth.map_enclose {b : Block} {outer : List Block} {n n' : Node} (hn : n.map (Node.at order change) = n')
    (h : ∀ c ∈ b :: outer, c.endOrder = none ∧ order ∉ c.soFar.map Statement.order) :
    (enclose none (b.hang n) outer).map (Node.at order change) = enclose none (b.hang n') outer := by
  have hb := h b (by simp)
  have hblock := Block.map_hang hn hb.1 hb.2
  induction outer generalizing b n n' with
  | nil => exact hblock
  | cons c outer ih =>
    have hc := h c (by simp)
    exact ih hblock (fun x hx => h x (List.mem_cons_of_mem b hx)) hc (Block.map_hang hblock hc.1 hc.2)

end At

/-! ## Growing through a handle -/

/-- Whether an open block is on the path or hangs in it, the tree is the same. -/
theorem Growth.nodes_hang_open {b : Block} (h : b.endOrder = none) (roots : List Node) (outer : List Block) :
    ((⟨roots, outer⟩ : Growth).hang (.block b)).nodes none = (⟨roots, b :: outer⟩ : Growth).nodes none := by
  have hopen : ({ b with endOrder := none } : Block) = b := by
    cases b
    simp only at h
    rw [h]
  cases outer with
  | nil => simp only [hang, nodes, enclose, hopen]
  | cons c outer => simp only [hang, nodes, enclose, hopen]

theorem Block.blocks_hang {b : Block} (h : b.Headed) (n : Node) (stop : Option Int) :
    n.blocks ⊆ (Node.block { b.hang n with endOrder := stop }).blocks := by
  rw [Node.blocks, Block.inner_end, Block.inner_hang h]
  simp

/-- The blocks of a node are among those of the blocks that it hangs in. -/
theorem Growth.blocks_enclose {b : Block} {outer : List Block} (h : ∀ x ∈ b :: outer, x.Headed) (n : Node)
    (stop : Option Int) : n.blocks ⊆ (enclose stop (b.hang n) outer).blocks := by
  induction outer generalizing b n with
  | nil => exact Block.blocks_hang (h b (by simp)) n stop
  | cons c outer ih =>
    have hinner := Block.blocks_hang (h b (by simp)) n stop
    exact List.Subset.trans hinner (ih (fun x hx => h x (List.mem_cons_of_mem b hx)) _)

namespace Grown

variable {opens : List OpenBlock} {items : List Statement} {g : Growth}

/-- Where a tree grows, a node can be changed by its order if that is the order of nothing else. -/
theorem changeAll_hang (h : Grown opens items g) {order : Int} {change : Node → Node} {n n' : Node}
    (hn : n.map (Node.at order change) = n') (ho : order ∉ items.map Statement.order) :
    Node.changeAll order change ((g.hang n).nodes none) = (g.hang n').nodes none := by
  rw [← h.written, List.map_append, List.mem_append, not_or] at ho
  obtain ⟨hroots, hpath⟩ := ho
  have hspared : Node.changeAll order change g.roots = g.roots := by
    refine Node.mapAll_of_spares _ (Node.spares_at ?_ _)
    rw [List.map_map] at hroots
    rw [Node.orders, ← List.map_congr_left fun item _ => Statement.order_bare item]
    exact hroots
  have hopen : ∀ c ∈ g.path, c.endOrder = none ∧ order ∉ c.soFar.map Statement.order := fun c hc =>
    ⟨(h.headed c hc).2, fun hm => hpath (by
      obtain ⟨item, hi, he⟩ := List.mem_map.1 hm
      exact List.mem_map.2 ⟨item, List.mem_flatMap.2 ⟨c, List.mem_reverse.2 hc, hi⟩, he⟩)⟩
  unfold Node.changeAll at hspared ⊢
  obtain ⟨roots, path⟩ := g
  cases path with
  | nil => simp only [Growth.hang, Growth.nodes, Node.mapAll_append, hspared, Node.mapAll, hn]
  | cons b outer =>
    simp only [Growth.hang, Growth.nodes, Node.mapAll_append, hspared, Node.mapAll, Growth.map_enclose hn hopen]

/-- The innermost open block of a grown tree can be changed by its start. -/
theorem changeAll_inner {roots : List Node} {inner : Block} {outer : List Block}
    (h : Grown opens items ⟨roots, inner :: outer⟩) (hn : (items.map Statement.order).Nodup) (change : Block → Block) :
    Node.changeAll inner.startOrder (Node.onBlock change) ((⟨roots, inner :: outer⟩ : Growth).nodes none) =
      ((⟨roots, outer⟩ : Growth).hang (.block (change inner))).nodes none := by
  have hw := h.written
  simp only [List.reverse_cons, List.flatMap_append, List.flatMap_singleton] at hw
  rw [← List.append_assoc] at hw
  rw [← hw, List.map_append, Block.orders_soFar] at hn
  obtain ⟨-, hinner, hapart⟩ := List.nodup_append.1 hn
  have hend := (h.headed inner (by simp)).2
  have hinside : inner.mapInside (Node.at inner.startOrder (Node.onBlock change)) = inner := by
    refine Block.mapInside_of_spares _ (Node.spares_at ?_ _)
    rw [Block.body_open hend]
    exact (List.nodup_cons.1 hinner).1
  have hnode : (Node.block inner).map (Node.at inner.startOrder (Node.onBlock change)) = .block (change inner) := by
    rw [Node.map, hinside]
    simp [Node.at, Node.order, Node.onBlock]
  rw [← Growth.nodes_hang_open hend]
  exact (h.outside rfl).changeAll_hang hnode fun hm => hapart _ hm _ (by simp) rfl

/-- The innermost open block of a grown tree stands in the tree as it has grown. -/
theorem inner_mem {roots : List Node} {inner : Block} {outer : List Block} (h : Grown opens items ⟨roots, inner :: outer⟩) :
    inner ∈ Node.allBlocks ((⟨roots, inner :: outer⟩ : Growth).nodes none) := by
  rw [← Growth.nodes_hang_open (h.headed inner (by simp)).2]
  have hhead : ∀ b ∈ outer, b.Headed := fun b hb => (h.headed b (by simp [hb])).1
  cases outer with
  | nil => simp [Growth.hang, Growth.nodes, Node.allBlocks_append, Node.allBlocks, Node.blocks]
  | cons b outer =>
    have hmem : inner ∈ (Growth.enclose none (b.hang (.block inner)) outer).blocks :=
      Growth.blocks_enclose hhead (.block inner) none (by simp [Node.blocks])
    simp [Growth.hang, Growth.nodes, Node.allBlocks_append, Node.allBlocks, hmem]

end Grown

/-! ## Labels that grow -/

theorem Branch.changeLast_concat (change : Branch → Branch) (bs : List Branch) (c : Branch) :
    Branch.changeLast change (bs ++ [c]) = bs ++ [change c] := by
  induction bs with
  | nil => rfl
  | cons b bs ih =>
    cases bs with
    | nil => rfl
    | cons _ _ => exact congrArg (b :: ·) ih

namespace Block

/-- The current branch of a block. -/
def current (b : Block) : Branch := b.branches.getLast?.getD {}

/-- A block with a text added to the label of its current branch. -/
def grow (text : String) (b : Block) : Block := b.relabel (Draft.growLabel text b.current.label)

theorem Headed.concat {b : Block} (h : b.Headed) : ∃ bs c, b.branches = bs ++ [c] ∧ b.current = c := by
  have hb := List.dropLast_concat_getLast h.ne_nil
  refine ⟨_, _, hb.symm, ?_⟩
  rw [current, List.getLast?_eq_some_getLast h.ne_nil]
  rfl

variable (text : String)

theorem grow_hang {b : Block} (h : b.Headed) (n : Node) : (b.hang n).grow text = (b.grow text).hang n := by
  obtain ⟨bs, c, hb, hc⟩ := h.concat
  simp only [grow, relabel, current, hb, Branch.changeLast_concat, List.getLast?_concat, hang, Branch.hang,
    List.length_append]
  rfl

theorem grow_addBranch {b : Block} (h : b.Headed) (label : Option String) (order : Int) :
    (b.addBranch label order).grow text = b.addBranch (Draft.growLabel text label) order := by
  obtain ⟨bs, c, hb, -⟩ := h.concat
  simp only [grow, relabel, addBranch, current, Branch.changeLast_concat, List.getLast?_concat]
  simp [hb]

end Block

/-- A tree with a text added to the label of an open block. -/
def Growth.grow (start : Int) (text : String) (g : Growth) : Growth :=
  { g with path := g.path.map fun b => if b.startOrder = start then b.grow text else b }

/-- A block that is open and whose branch the latest item does not open was open before. -/
theorem History.open_before {item : Statement} {past : List Statement} (h : History (item :: past)) {start : Int}
    (hs : start ∈ (openAfter (item :: past)).map OpenBlock.start)
    (hi : ¬ Draft.opensBranchOf start item = true) : start ∈ (openAfter past).map OpenBlock.start := by
  cases item with
  | blockStart s =>
    refine (List.mem_cons.1 hs).resolve_left fun he => ?_
    simp [Draft.opensBranchOf, he] at hi
  | blockBranch b =>
    obtain ⟨-, o, outer, ho, -⟩ := h.1
    simpa [openAfter, ho] using hs
  | blockEnd e => exact List.mem_of_mem_tail (by simpa [openAfter, List.map_tail] using hs)
  | _ => exact hs

namespace Growth

variable {past : List Statement} {start : Int}

theorem headed_ofPast (h : History past) : ∀ b ∈ (ofPast past).path, b.Headed := fun b hb =>
  ((grown_ofPast h).headed b hb).1

/-- The blocks around an open block start elsewhere. -/
theorem apart_ofPast (h : History past) {inner : Block} {outer : List Block} (hp : (ofPast past).path = inner :: outer) :
    ∀ b ∈ outer, b.startOrder ≠ inner.startOrder := by
  intro b hb
  have hstarts := (start_lt h).1
  rw [← (grown_ofPast h).path, hp, List.map_map] at hstarts
  have hlt : inner.startOrder > b.startOrder := (List.pairwise_cons.1 hstarts).1 _ (List.mem_map_of_mem hb)
  omega

/-- Only the innermost open block grows by its start. -/
theorem grow_inner (roots : List Node) {inner : Block} {outer : List Block}
    (h : ∀ b ∈ outer, b.startOrder ≠ inner.startOrder) (text : String) :
    (⟨roots, inner :: outer⟩ : Growth).grow inner.startOrder text = ⟨roots, inner.grow text :: outer⟩ := by
  have houter : (outer.map fun b => if b.startOrder = inner.startOrder then b.grow text else b) = outer := by
    refine (List.map_congr_left fun b hb => ?_).trans (List.map_id _)
    rw [if_neg (h b hb), id]
  simp [grow, houter]

theorem grow_outside {roots : List Node} {inner : Block} {outer : List Block} (h : inner.startOrder ≠ start) (text : String) :
    (⟨roots, inner :: outer⟩ : Growth).grow start text = ⟨roots, inner :: ((⟨roots, outer⟩ : Growth).grow start text).path⟩ := by
  simp [grow, h]

theorem grow_hang {g : Growth} (hg : ∀ b ∈ g.path, b.Headed) (text : String) (n : Node) :
    (g.hang n).grow start text = (g.grow start text).hang n := by
  obtain ⟨roots, path⟩ := g
  cases path with
  | nil => rfl
  | cons b outer =>
    have hb := Block.grow_hang text (hg b (by simp)) n
    have hstart : (b.hang n).startOrder = b.startOrder := rfl
    simp only [hang, grow, List.map_cons, hstart]
    by_cases hs : b.startOrder = start
    · simp [hs, hb]
    · simp [hs]

/-- The tree of a branch's timeline goes on in the block that the branch names. -/
theorem inner_of_branch {b : BlockBranch} (h : History (.blockBranch b :: past)) :
    ∃ roots inner outer, ofPast past = ⟨roots, inner :: outer⟩ ∧ b.blockOrder = inner.startOrder := by
  obtain ⟨-, o, opens, ho, -, hb, -⟩ := h.1
  obtain ⟨inner, outer, hpath, rfl, -⟩ := (ho ▸ grown_ofPast h.2).innermost
  exact ⟨_, inner, outer, by rw [← hpath], hb⟩

/-- An end takes the innermost block off the path, and the others stay open. -/
theorem inner_of_end {e : BlockEnd} (h : History (.blockEnd e :: past)) :
    ∃ roots inner outer, ofPast past = ⟨roots, inner :: outer⟩ ∧
      openAfter (.blockEnd e :: past) = outer.map Block.asOpen := by
  obtain ⟨-, o, opens, ho, -⟩ := h.1
  obtain ⟨inner, outer, hpath, -, hrest⟩ := (ho ▸ grown_ofPast h.2).innermost
  exact ⟨_, inner, outer, by rw [← hpath], by rw [openAfter, ho, List.tail_cons, hrest]⟩

/-- The item that opens a branch with a longer label gives the block of that branch the longer
label: the branch is the last one of the block. -/
theorem step_growItem {item : Statement} (h : History (item :: past)) (hopen : Draft.opensBranchOf start item = true)
    (text : String) : (ofPast past).step (Draft.growItem text item) = ((ofPast past).step item).grow start text := by
  have hapart := @apart_ofPast _ h
  rw [ofPast] at hapart
  cases item with
  | blockStart s =>
    have hstart : s.order = start := by simpa [Draft.opensBranchOf] using hopen
    subst hstart
    exact (grow_inner _ (hapart rfl) text).symm
  | blockBranch b =>
    obtain ⟨roots, inner, outer, hp, hb⟩ := inner_of_branch h
    have hstart : inner.startOrder = start := hb.symm.trans (by simpa [Draft.opensBranchOf] using hopen)
    subst hstart
    have hhead := headed_ofPast h.2
    rw [hp] at hhead hapart ⊢
    have hgrow := Block.grow_addBranch text (hhead inner (by simp)) b.label b.order
    have hinner := grow_inner roots (hapart rfl) text
    rw [hgrow] at hinner
    exact hinner.symm
  | _ => cases hopen

/-- Every other item leaves the label of an open block as it is. -/
theorem step_grow {item : Statement} (h : History (item :: past)) (hs : start ∈ (openAfter (item :: past)).map OpenBlock.start)
    (hopen : ¬ Draft.opensBranchOf start item = true) (text : String) :
    ((ofPast past).grow start text).step item = ((ofPast past).step item).grow start text := by
  have hhead := headed_ofPast h.2
  cases item with
  | message | note | directive => exact (grow_hang hhead text _).symm
  | blockStart s =>
    have hstart : s.order ≠ start := by simpa [Draft.opensBranchOf] using hopen
    exact (grow_outside hstart text).symm
  | blockBranch b =>
    obtain ⟨roots, inner, outer, hp, hb⟩ := inner_of_branch h
    have hstart : inner.startOrder ≠ start := fun he => hopen (by simp [Draft.opensBranchOf, hb, he])
    have hadded : (inner.addBranch b.label b.order).startOrder ≠ start := hstart
    rw [hp, grow_outside hstart]
    exact (grow_outside hadded text).symm
  | blockEnd e =>
    obtain ⟨roots, inner, outer, hp, hopens⟩ := inner_of_end h
    have hstart : inner.startOrder ≠ start := by
      rw [hopens, List.map_map] at hs
      obtain ⟨x, hx, rfl⟩ := List.mem_map.1 hs
      exact (apart_ofPast h.2 (congrArg path hp) x hx).symm
    rw [hp] at hhead ⊢
    rw [grow_outside hstart]
    exact (@grow_hang start ⟨roots, outer⟩ (fun b hb => hhead b (by simp [hb])) text _).symm
  | _ => rfl

/-- A longer label of an open block shows in the tree as a longer label of that block. -/
theorem ofPast_grow (h : History past) (hs : start ∈ (openAfter past).map OpenBlock.start) (text : String) :
    ofPast (Draft.changeFirst (Draft.opensBranchOf start) (Draft.growItem text) past) = (ofPast past).grow start text := by
  induction past with
  | nil => cases hs
  | cons item older ih =>
    unfold Draft.changeFirst
    split
    · rename_i hopen
      exact step_growItem h hopen text
    · rename_i hopen
      rw [ofPast, ih h.2 (open_before h hs hopen), ofPast]
      exact step_grow h hs hopen text

end Growth

/-! ## The current branch of a block -/

/-- The latest item of a timeline that opens a branch of a block opens its current branch. -/
def Block.OpenedIn (past : List Statement) (b : Block) : Prop :=
  ∃ item, past.find? (Draft.opensBranchOf b.startOrder) = some item ∧
    item.order = b.current.startOrder ∧ item.branchLabel? = b.current.label

namespace Block.OpenedIn

variable {past : List Statement} {b : Block}

theorem cons (h : b.OpenedIn past) {item : Statement} (hi : ¬ Draft.opensBranchOf b.startOrder item = true) :
    b.OpenedIn (item :: past) := by
  obtain ⟨x, hx, hopen⟩ := h
  exact ⟨x, by rwa [List.find?_cons_of_neg hi], hopen⟩

theorem hang (h : b.OpenedIn past) (hb : b.Headed) (n : Node) : (b.hang n).OpenedIn past := by
  obtain ⟨bs, c, hbs, hc⟩ := hb.concat
  obtain ⟨x, hx, ho, hl⟩ := h
  have hcurrent : (b.hang n).current = { c with statements := c.statements ++ [n] } := by
    simp [Block.current, Block.hang, Branch.hang, hbs, Branch.changeLast_concat]
  rw [hc] at ho hl
  exact ⟨x, hx, by rw [hcurrent, ho], by rw [hcurrent, hl]⟩

end Block.OpenedIn

/-- With a node that no item of a branch puts there, every open block keeps its current branch. -/
theorem Growth.openedIn_hang {g : Growth} {past : List Statement} {item : Statement}
    (hg : ∀ b ∈ g.path, b.Headed ∧ b.OpenedIn past) (hi : ∀ start, Draft.opensBranchOf start item = false) (n : Node) :
    ∀ b ∈ (g.hang n).path, b.OpenedIn (item :: past) := by
  intro b hb
  obtain ⟨roots, path⟩ := g
  cases path with
  | nil => cases hb
  | cons inner outer =>
    rcases List.mem_cons.1 hb with rfl | hb
    · exact ((hg inner (by simp)).2.hang (hg inner (by simp)).1 n).cons (by simp [hi])
    · exact (hg b (by simp [hb])).2.cons (by simp [hi])

/-- Every open block has its current branch where the timeline has the latest one of it. -/
theorem Growth.openedIn_ofPast {past : List Statement} (h : History past) : ∀ b ∈ (ofPast past).path, b.OpenedIn past := by
  induction past with
  | nil => simp [ofPast]
  | cons item older ih =>
    have hold : ∀ b ∈ (ofPast older).path, b.Headed ∧ b.OpenedIn older := fun b hb => ⟨headed_ofPast h.2 b hb, ih h.2 b hb⟩
    cases item with
    | message | note | directive => exact openedIn_hang hold (fun _ => rfl) _
    | blockStart s =>
      intro b hb
      rcases List.mem_cons.1 hb with rfl | hb'
      · exact ⟨.blockStart s, by simp [Draft.opensBranchOf, Block.opened], rfl, rfl⟩
      · have hapart : b.startOrder ≠ s.order := apart_ofPast h rfl b hb'
        exact (hold b hb').2.cons (by simpa [Draft.opensBranchOf] using hapart.symm)
    | blockBranch c =>
      obtain ⟨roots, inner, outer, hp, hc⟩ := inner_of_branch h
      intro b hb
      rw [hp] at hold
      simp only [ofPast, step, hp, List.mem_cons] at hb
      rcases hb with rfl | hb
      · have hcurrent : (inner.addBranch c.label c.order).current = { label := c.label, startOrder := c.order } := by
          simp [Block.current, Block.addBranch]
        exact ⟨.blockBranch c, by simp [Draft.opensBranchOf, Block.addBranch, hc], by rw [hcurrent]; rfl, by rw [hcurrent]; rfl⟩
      · have hapart := apart_ofPast h.2 (congrArg path hp) b hb
        exact (hold b (by simp [hb])).2.cons (by simpa [Draft.opensBranchOf, hc] using hapart.symm)
    | blockEnd e =>
      obtain ⟨roots, inner, outer, hp, -⟩ := inner_of_end h
      rw [hp] at hold
      simp only [ofPast, step, hp]
      exact @openedIn_hang ⟨roots, outer⟩ _ _ (fun b hb => hold b (by simp [hb])) (fun _ => rfl) _
    | _ => exact h.1.elim

/-! ## Trees with ends -/

/-- What is done has an end already. -/
theorem Node.spares_done {blocks : List Block} (h : ∀ b ∈ blocks, b.Done) (orders : List Int) (stop : Option Int) :
    Node.Spares (Node.onBlock (Block.endBy stop)) orders blocks := by
  intro n _ hn
  cases n with
  | block b =>
    have hend : b.endOrder.or stop = b.endOrder := Option.or_of_isSome (h b (hn b rfl)).2
    simp only [Node.onBlock, Block.endBy, hend]
    cases b
    rfl
  | _ => rfl

/-- Of a growing tree only the blocks on the path take an end. -/
theorem Growth.map_end_enclose {stop : Option Int} {inner inner' : Block} {outer : List Block}
    (hi : inner.mapInside (Node.onBlock (Block.endBy stop)) = inner') (ho : ∀ b ∈ outer, ∀ c ∈ b.inner, c.Done) :
    (enclose none inner outer).map (Node.onBlock (Block.endBy stop)) = enclose stop inner' outer := by
  have hnode : (Node.block { inner with endOrder := none }).map (Node.onBlock (Block.endBy stop)) =
      .block { inner' with endOrder := stop } := by
    rw [Node.map, Block.mapInside_end, hi]
    simp [Node.onBlock, Block.endBy]
  induction outer generalizing inner inner' with
  | nil => exact hnode
  | cons b outer ih =>
    have hb := Block.mapInside_of_spares b (Node.spares_done (ho b (by simp)) _ stop)
    have hhung : (b.hang (.block { inner with endOrder := none })).mapInside (Node.onBlock (Block.endBy stop)) =
        b.hang (.block { inner' with endOrder := stop }) := by
      rw [Block.mapInside_hang, hb, hnode]
    refine ih hhung (fun x hx => ho x (List.mem_cons_of_mem b hx)) ?_
    rw [Node.map, Block.mapInside_end, hhung]
    simp [Node.onBlock, Block.endBy]

/-- With an end for what is open, a grown tree is the tree with that end on its path. -/
theorem Grown.endAll_nodes {opens : List OpenBlock} {items : List Statement} {g : Growth} (h : Grown opens items g)
    (stop : Option Int) : Node.endAll stop (g.nodes none) = g.nodes stop := by
  have hroots := Node.mapAll_of_spares g.roots (Node.spares_done h.roots _ stop)
  have hin := h.within
  obtain ⟨roots, path⟩ := g
  unfold Node.endAll
  cases path with
  | nil => exact hroots
  | cons inner outer =>
    simp only [List.mem_cons, forall_eq_or_imp] at hin
    have hinner := Block.mapInside_of_spares inner (Node.spares_done hin.1 _ stop)
    simp only [Growth.nodes, Node.mapAll_append, hroots, Node.mapAll, Growth.map_end_enclose hinner hin.2]

end Lifeline
