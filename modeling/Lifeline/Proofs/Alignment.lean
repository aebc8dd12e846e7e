import Lifeline.Proofs.Handles
/-!
# The stores of a draft

A draft keeps what happens three times: in the timeline, in the tree and on the stack of frames.
Every operation writes to each of them, to the tree through the innermost frame of a block.
`Draft.Aligned` says that they agree: the timeline has its shape, its open blocks are those of
the frames, and the tree is the one that grows along the timeline. Every reachable draft is
aligned (`Draft.aligned_run`), and so the timeline and the tree are two views of one diagram
(`Draft.timeline_and_tree_agree`).
-/

namespace Lifeline

open History

/-! ## Frames -/

/-- The kinds and the starts of the block frames, innermost first. -/
def Frames.blocks (fs : Frames Nat) : List (BlockKind × Int) :=
  fs.filterMap fun f => match f.region with
    | .block kind => some (kind, f.content)
    | .box => none

/-- The innermost block frame is the first of the blocks. -/
theorem Frames.blocks_of_block? {fs : Frames Nat} {f : Frame Nat} (h : fs.block? = some f) :
    ∃ kind outer, f.region = .block kind ∧ fs.blocks = (kind, (f.content : Int)) :: outer := by
  induction fs with
  | nil => cases h
  | cons g gs ih =>
    cases hg : g.region with
    | box =>
      have : g.isBox = true := by simp [Frame.isBox, hg]
      simp only [Frames.block?, List.find?_cons, this, Bool.not_true] at h
      obtain ⟨kind, outer, hk, ho⟩ := ih h
      exact ⟨kind, outer, hk, by simpa [Frames.blocks, hg] using ho⟩
    | block kind =>
      have : g.isBox = false := by simp [Frame.isBox, hg]
      simp only [Frames.block?, List.find?_cons, this, Bool.not_false, Option.some.injEq] at h
      subst h
      exact ⟨kind, Frames.blocks gs, hg, by simp [Frames.blocks, hg]⟩

theorem Frames.blocks_of_no_block {fs : Frames Nat} (h : fs.block? = none) : fs.blocks = [] := by
  refine List.filterMap_eq_nil_iff.2 fun f hf => ?_
  have hbox := List.find?_eq_none.1 h f hf
  have hr : f.region = .box := by simpa [Frame.isBox] using hbox
  rw [hr]

/-- The innermost frame is the innermost frame of a block if it is one. -/
theorem Frames.block?_cons {f : Frame Nat} {kind : BlockKind} (h : f.region = .block kind) (outer : Frames Nat) :
    Frames.block? (f :: outer) = some f := by
  simp [Frames.block?, Frame.isBox, h]

/-- A branch continues the innermost frame, a block of its kind. -/
theorem Frames.branch_eq_ok {fs : Frames Nat} {keyword : String} {f : Frame Nat}
    (h : fs.branch keyword = .ok f) :
    ∃ kind outer, fs = f :: outer ∧ f.region = .block kind ∧ kind.branchKeyword? = some keyword := by
  unfold Frames.branch at h
  cases hk : BlockKind.ofBranchKeyword? keyword with
  | none => simp [hk] at h
  | some kind =>
    cases fs with
    | nil => simp [hk] at h
    | cons g outer =>
      simp only [hk] at h
      split at h
      · rename_i hg
        simp only [Except.ok.injEq] at h
        subst h
        exact ⟨kind, outer, rfl, by simpa using hg, BlockKind.branchKeyword?_of_ofBranchKeyword? hk⟩
      · cases h

/-! ## Drafts -/

namespace Draft

/-- The timeline has its shape, its open blocks are those of the frames, and the tree has grown
along it. -/
structure Aligned (d : Draft) : Prop where
  history : History d.past
  frames : (openAfter d.past).map (fun o => (o.kind, o.start)) = d.frames.blocks
  grown : d.statements = (Growth.ofPast d.past).nodes none

theorem aligned_empty : Aligned {} := ⟨trivial, rfl, rfl⟩

namespace Aligned

variable {d : Draft}

/-- The innermost frame of a block is that of the innermost open block of the timeline. -/
theorem open_of_frame (ha : d.Aligned) {f : Frame Nat} (h : d.frames.block? = some f) :
    ∃ o os, openAfter d.past = o :: os ∧ o.start = f.content ∧ f.region = .block o.kind := by
  obtain ⟨kind, rest, hr, hb⟩ := Frames.blocks_of_block? h
  obtain ⟨o, os, ho, hframe, -⟩ := List.map_eq_cons_iff.1 (ha.frames.trans hb)
  obtain ⟨rfl, hstart⟩ := Prod.mk.inj hframe
  exact ⟨o, os, ho, hstart, hr⟩

theorem mem_open_of_frame (ha : d.Aligned) {f : Frame Nat} (h : d.frames.block? = some f) :
    (f.content : Int) ∈ (openAfter d.past).map OpenBlock.start := by
  obtain ⟨o, os, ho, hs, -⟩ := ha.open_of_frame h
  simp [ho, hs]

/-- The same block is the innermost one where the tree grows. -/
theorem innermost (ha : d.Aligned) {f : Frame Nat} (h : d.frames.block? = some f) :
    ∃ roots inner outer, Growth.ofPast d.past = ⟨roots, inner :: outer⟩ ∧
      inner.startOrder = f.content ∧ f.region = .block inner.kind := by
  obtain ⟨o, os, ho, hstart, hr⟩ := ha.open_of_frame h
  obtain ⟨inner, outer, hp, rfl, -⟩ := (ho ▸ grown_ofPast ha.history).innermost
  exact ⟨_, inner, outer, by rw [← hp], hstart, hr⟩

section Innermost

variable {roots : List Node} {inner : Block} {outer : List Block} (hp : Growth.ofPast d.past = ⟨roots, inner :: outer⟩)
include hp

/-- The tree with another innermost block. -/
theorem changed (ha : d.Aligned) (change : Block → Block) :
    d.changed inner.startOrder change = ((⟨roots, outer⟩ : Growth).hang (.block (change inner))).nodes none := by
  have hg := grown_ofPast ha.history
  rw [Draft.changed, ha.grown]
  rw [hp] at hg ⊢
  exact hg.changeAll_inner ha.history.nodup_orders change

/-- The same where the block stays open. -/
theorem changed_open (ha : d.Aligned) {change : Block → Block} (hc : (change inner).endOrder = inner.endOrder) :
    d.changed inner.startOrder change = (⟨roots, change inner :: outer⟩ : Growth).nodes none := by
  have hend := ((grown_ofPast ha.history).headed inner (by simp [hp])).2
  rw [ha.changed hp, Growth.nodes_hang_open (hc.trans hend)]

/-- The innermost open block is found by its start. -/
theorem blockAt?_inner (ha : d.Aligned) : d.blockAt? inner.startOrder = some inner := by
  have hg := grown_ofPast ha.history
  have hstarts := Node.nodup_starts hg.nodes.1 ha.history.nodup_orders
  rw [blockAt?, ha.grown]
  rw [hp] at hg hstarts ⊢
  exact find?_key Block.startOrder hstarts hg.inner_mem

theorem branchCount_inner (ha : d.Aligned) : d.branchCount inner.startOrder = inner.branches.length := by
  rw [branchCount, ha.blockAt?_inner hp]
  rfl

theorem currentBranch_inner (ha : d.Aligned) : d.currentBranch inner.startOrder = inner.current := by
  rw [currentBranch, ha.blockAt?_inner hp]
  rfl

/-- The blocks on the path are the open blocks of the timeline. -/
theorem opens (ha : d.Aligned) : openAfter d.past = inner.asOpen :: outer.map Block.asOpen := by
  have hpath := (grown_ofPast ha.history).path
  rw [hp] at hpath
  exact hpath.symm

end Innermost

/-- The innermost open block has as many branches as the timeline counts. -/
theorem branchCount_eq (ha : d.Aligned) {f : Frame Nat} (h : d.frames.block? = some f) :
    ∃ o os, openAfter d.past = o :: os ∧ d.branchCount f.content = o.branches := by
  obtain ⟨roots, inner, outer, hp, hs, -⟩ := ha.innermost h
  exact ⟨_, _, ha.opens hp, hs ▸ ha.branchCount_inner hp⟩

/-- A node hangs in the tree where the timeline lets it grow. -/
theorem hung (ha : d.Aligned) (n : Node) : d.hung n = ((Growth.ofPast d.past).hang n).nodes none := by
  unfold Draft.hung
  cases hf : d.frames.block? with
  | none =>
    have hp : (Growth.ofPast d.past).path = [] := by
      have hopens := ha.frames.trans (Frames.blocks_of_no_block hf)
      rw [← (grown_ofPast ha.history).path] at hopens
      simpa using hopens
    simp [Growth.hang, Growth.nodes, hp, ha.grown]
  | some f =>
    obtain ⟨roots, inner, outer, hp, hs, -⟩ := ha.innermost hf
    dsimp only
    rw [← hs, ha.changed_open hp rfl, hp]
    rfl

/-- The current branch of the innermost block has been opened where its order says. -/
theorem grows (ha : d.Aligned) {f : Frame Nat} (hf : d.frames.block? = some f) (text : String) :
    changeAt (d.currentBranch f.content).startOrder.toNat (relabelItem (d.grownLabel f.content text)) d.past =
        changeFirst (opensBranchOf f.content) (growItem text) d.past ∧
      d.changed f.content (Block.relabel · (d.grownLabel f.content text)) =
        ((Growth.ofPast d.past).grow f.content text).nodes none := by
  obtain ⟨roots, inner, outer, hp, hs, -⟩ := ha.innermost hf
  have hapart := Growth.apart_ofPast ha.history (congrArg Growth.path hp)
  rw [← hs, grownLabel, ha.currentBranch_inner hp]
  refine ⟨?_, ?_⟩
  · obtain ⟨item, hi, ho, hl⟩ := Growth.openedIn_ofPast ha.history inner (by simp [hp])
    rw [← ho]
    refine (changeFirst_eq_changeAt ha.history hi ?_).symm
    have hopens := List.find?_some hi
    cases item with
    | blockStart | blockBranch => simp only [growItem, relabelItem, ← hl, Statement.branchLabel?]
    | _ => cases hopens
  · rw [ha.changed_open hp (by rfl), hp, Growth.grow_inner _ hapart]
    rfl

end Aligned

section Kinds

variable {d d' : Draft} (ha : d.Aligned)
include ha

/-- A draft stays aligned if its stores stay as they are. -/
theorem Aligned.same (hp : d'.past = d.past) (hf : d'.frames.blocks = d.frames.blocks)
    (hs : d'.statements = d.statements) : d'.Aligned where
  history := hp ▸ ha.history
  frames := by rw [hp, hf, ha.frames]
  grown := by rw [hp, hs, ha.grown]

/-- A further item has to go into all of them. -/
theorem Aligned.push {item : Statement} (hp : d'.past = item :: d.past) (hi : item.Follows d.past)
    (hf : (openAfter (item :: d.past)).map (fun o => (o.kind, o.start)) = d'.frames.blocks)
    (hs : d'.statements = ((Growth.ofPast d.past).step item).nodes none) : d'.Aligned where
  history := hp ▸ ⟨hi, ha.history⟩
  frames := hp ▸ hf
  grown := hp ▸ hs

/-- What changes neither orders nor blocks has to be written to the timeline and to the tree. -/
theorem Aligned.reshape (hp : d'.past.map outline = d.past.map outline) (hf : d'.frames = d.frames)
    (hs : d'.statements = (Growth.ofPast d'.past).nodes none) : d'.Aligned := by
  obtain ⟨hi, ho⟩ := of_outline hp
  exact ⟨hi.2 ha.history, by rw [ho, hf, ha.frames], hs⟩

/-- A message that an activation is folded into stands in the tree where it was hung. -/
theorem Aligned.folded {m m' : Message} {older : List Statement} {id : String} {activate : Bool}
    (hp : d.past = .message m :: older) (hm : fold? m id activate = some m') :
    Node.changeAll m'.order (fun _ => .message m') d.statements = (Growth.ofPast (.message m' :: older)).nodes none := by
  have hhistory := ha.history
  have hsame := congrArg Statement.order (outline_fold hm)
  rw [hp] at hhistory
  have horder : m'.order = older.length := hsame.trans hhistory.1
  have hnode : (Node.message m).map (Node.at m'.order fun _ => .message m') = .message m' := by
    have : m.order = m'.order := hsame.symm
    simp [Node.map, Node.at, Node.order, this]
  have hfresh : m'.order ∉ older.reverse.map Statement.order := by
    intro hmem
    obtain ⟨item, hi, he⟩ := List.mem_map.1 hmem
    have := (order_bounds hhistory.2 (List.mem_reverse.1 hi)).2
    omega
  rw [ha.grown, hp]
  exact (grown_ofPast hhistory.2).changeAll_hang hnode hfresh

/-- A branch that the frames allow goes to the innermost open block in all stores. -/
theorem Aligned.branched {f : Frame Nat} {keyword : String} {label : Option String} (h : d.frames.branch keyword = .ok f)
    (hp : d'.past = .blockBranch { keyword, label, order := d.nextOrder, blockOrder := f.content
                                   branchIndex := d.branchCount f.content } :: d.past)
    (hf : d'.frames = d.frames) (hs : d'.statements = d.changed f.content (Block.addBranch · label d.nextOrder)) :
    d'.Aligned := by
  obtain ⟨kind, frames, hframes, hr, hk⟩ := Frames.branch_eq_ok h
  obtain ⟨roots, inner, outer, hg, hstart, hkind⟩ := ha.innermost (hframes ▸ Frames.block?_cons hr frames)
  obtain rfl : kind = inner.kind := Region.block.inj (hr.symm.trans hkind)
  have hopens := ha.opens hg
  rw [← hstart] at hp hs
  have hindex := congrArg Int.ofNat (ha.branchCount_inner hg)
  refine ha.push hp ⟨rfl, _, _, hopens, hk, rfl, hindex⟩ ?_ ?_
  · rw [hf, ← ha.frames]
    simp [openAfter, hopens]
  · rw [hs, hg, ha.changed_open hg rfl]
    rfl

/-- An end closes the innermost open block in all stores. -/
theorem Aligned.ended {f : Frame Nat} {frames : Frames Nat} {kind : BlockKind} (hframes : d.frames = f :: frames)
    (hr : f.region = .block kind) (hp : d'.past = .blockEnd { order := d.nextOrder, blockOrder := f.content } :: d.past)
    (hf : d'.frames = frames) (hs : d'.statements = d.changed f.content (Block.close · d.nextOrder)) : d'.Aligned := by
  obtain ⟨roots, inner, outer, hg, hstart, -⟩ := ha.innermost (hframes ▸ Frames.block?_cons hr frames)
  have hopens := ha.opens hg
  have hblocks := ha.frames
  rw [← hstart] at hp hs
  refine ha.push hp ⟨rfl, _, _, hopens, rfl⟩ ?_ ?_
  · simp only [hopens, hframes, Frames.blocks, List.filterMap_cons, hr, List.map_cons, List.cons.injEq] at hblocks
    simp only [openAfter, hopens, hf, List.tail_cons]
    exact hblocks.2
  · rw [hs, hg, ha.changed hg]
    rfl

end Kinds

theorem Step.aligned {d d' : Draft} {e : Event} (h : Step d e d') (ha : d.Aligned) : d'.Aligned := by
  cases h with
  | mention | link | number => exact ha.same rfl rfl rfl
  | declare => exact ha.same (by simp) (by simp) (by simp)
  | create | destroyAtLast | destroyLater | note | activation => exact ha.push rfl rfl ha.frames (ha.hung _)
  | message =>
    refine ha.push (past_settle _ _) rfl ?_ ?_
    · rw [frames_settle]
      exact ha.frames
    · rw [statements_settle]
      exact ha.hung _
  | fold h hp hm => exact ha.reshape (by simp [hp, outline_fold hm]) rfl (ha.folded hp hm)
  | @extend text f hf =>
    obtain ⟨hpast, htree⟩ := ha.grows hf text
    refine ha.reshape (hpast ▸ outline_changeFirst (outline_growItem text) _ _) rfl ?_
    rw [hpast, Growth.ofPast_grow ha.history (ha.mem_open_of_frame hf), ← htree]
  | openBox => exact ha.same rfl (by simp [Frames.blocks]) rfl
  | openBlock =>
    refine ha.push rfl ⟨rfl, rfl, rfl, rfl⟩ ?_ ?_
    · simpa [openAfter, Frames.blocks] using ha.frames
    · exact (ha.hung _).trans (Growth.nodes_hang_open rfl _ _)
  | openBranch h => exact ha.branched h rfl rfl rfl
  | closeBox hf hb => exact ha.same rfl (by simp [hf, Frames.blocks, hb]) rfl
  | closeBlock hf hb => exact ha.ended hf hb rfl rfl rfl

/-- Every run of operations leaves an aligned draft. -/
theorem aligned_run (ops : List Operation) : (run {} ops).Aligned := run_keep aligned_empty Step.aligned ops

/-- The tree of an aligned draft, its open blocks with an end. -/
theorem Aligned.tree_eq {d : Draft} (ha : d.Aligned) (stop : Option Int) : d.tree stop = (Growth.ofPast d.past).nodes stop := by
  rw [tree, ha.grown]
  exact (grown_ofPast ha.history).endAll_nodes stop

theorem Aligned.statements_build {d : Draft} (ha : d.Aligned) :
    d.build.statements = (Growth.ofPast d.past).nodes (some d.nextOrder) := ha.tree_eq _

/-- What happened determines the tree. -/
theorem Aligned.tree_congr {d d' : Draft} (ha : d.Aligned) (ha' : d'.Aligned) (h : d'.past = d.past) (stop : Option Int) :
    d'.tree stop = d.tree stop := by
  rw [ha.tree_eq, ha'.tree_eq, h]

theorem Aligned.timeline_congr {d d' : Draft} (ha : d.Aligned) (ha' : d'.Aligned) (h : d'.past = d.past)
    (stop : Option Int) : d'.timeline stop = d.timeline stop := by
  rw [timeline, timeline, ha.tree_congr ha' h, h]

/-! ## Main theorem -/

/-- After any run of operations, failed ones included, every item of the timeline has its place
as its order, and the tree written out is the timeline; what it shows of a block apart from what
stands in it is what the timeline was given. Every block has the label of its first branch. The
open blocks are the last path of the tree, and they are the blocks on the stack of frames,
outermost first, each found in the tree by its frame. -/
theorem timeline_and_tree_agree (ops : List Operation) :
    let d := run {} ops
    (∀ i (hi : i < (d.timeline none).length), ((d.timeline none)[i]).order = i) ∧
      Node.expandAll d.statements = d.timeline none ∧
      (Node.expandAll d.statements).map Statement.bare = d.past.reverse ∧
      (∀ b ∈ Node.allBlocks d.statements, b.branches.head?.map Branch.label = some b.label) ∧
      (Node.allBlocks d.statements).filter Block.isOpen = Node.lastOpen d.statements ∧
      (Node.lastOpen d.statements).map (fun b => (b.kind, b.startOrder)) = d.frames.blocks.reverse ∧
      ∀ b ∈ Node.lastOpen d.statements, d.blockAt? b.startOrder = some b := by
  intro d
  have ha : d.Aligned := aligned_run ops
  have hgrown := grown_ofPast ha.history
  obtain ⟨hw, hopen, hhead, hkeys⟩ := hgrown.nodes
  have htree : d.tree none = d.statements := (ha.tree_eq none).trans ha.grown.symm
  rw [← ha.grown] at hw hopen hhead hkeys
  have htime : d.timeline none = Node.expandAll d.statements := by
    rw [timeline, htree]
    exact Node.map_fillIn hw (Statement.nodup_opened ha.history.nodup_orders)
  refine ⟨fun i hi => ?_, htime.symm, hw, hhead, hopen, ?_, fun b hb => ?_⟩
  · have hget : ((d.timeline none).map Statement.order) = (List.range d.past.length).map Int.ofNat := by
      rw [← ha.history.orders, timeline, List.map_map]
      refine List.map_congr_left fun item _ => ?_
      cases item <;> rfl
    have := congrArg (·[i]?) hget
    have hi' : i < d.past.length := by simpa [timeline] using hi
    simpa [List.getElem?_eq_getElem hi, hi'] using this
  · rw [← ha.frames]
    exact hkeys
  · have hstarts := Node.nodup_starts hw ha.history.nodup_orders
    exact find?_key Block.startOrder hstarts (Node.mem_lastOpen _ b hb).1

end Draft

end Lifeline
