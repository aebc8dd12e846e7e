import Mathlib.Data.List.Pairwise
import Lifeline.Proofs.Alike
import Lifeline.Proofs.Coherence
/-!
# Blocks that are closed before a diagram is built

A diagram can be built while blocks are open: they end where the timeline does. Closing them
first puts their ends into the timeline, one behind the other, and each block has the place of
its own end. Nothing else changes, and the text that is written is the same
(`Draft.build_closed`).
-/

namespace Lifeline

open History

/-! ## Trees with other ends -/

/-- A block with the end that is given for its start, if one is given. -/
def Block.takeEnd (ends : Int → Option Int) (b : Block) : Block := { b with endOrder := (ends b.startOrder).or b.endOrder }

/-- A block that has the end that is given for its start, as have the blocks inside it. -/
def Block.endAt (ends : Int → Option Int) (b : Block) : Block :=
  (b.mapInside (Node.onBlock (Block.takeEnd ends))).takeEnd ends

/-- A node in which every block has the end that is given for its start. -/
def Node.endAt (ends : Int → Option Int) : Node → Node := Node.map (Node.onBlock (Block.takeEnd ends))

/-- Nodes in which every block has the end that is given for its start. -/
def Node.allEndAt (ends : Int → Option Int) : List Node → List Node := Node.mapAll (Node.onBlock (Block.takeEnd ends))

/-- An item of a timeline whose block has the end that is given for its start. -/
def Statement.endAt (ends : Int → Option Int) : Statement → Statement
  | .blockStart s => .blockStart { s with block := s.block.endAt ends }
  | item => item

variable {ends : Int → Option Int}

theorem Node.endAt_block (b : Block) : (Node.block b).endAt ends = .block (b.endAt ends) := by
  rw [Node.endAt, Node.map]
  rfl

theorem Block.startOrder_endAt (b : Block) : (b.endAt ends).startOrder = b.startOrder := by
  cases b
  rfl

theorem Node.allBlocks_endAt (ns : List Node) :
    Node.allBlocks (Node.allEndAt ends ns) = (Node.allBlocks ns).map (Block.endAt ends) :=
  Node.allBlocks_mapAll (fun b => by rw [Block.takeEnd, Block.inner_end]) ns

/-- A block whose own end is not another one than is given for its start. -/
def Block.Settles (ends : Int → Option Int) (b : Block) : Prop := (ends b.startOrder).or b.endOrder = b.endOrder

theorem Block.spares_of_settles {blocks : List Block} (h : ∀ c ∈ blocks, c.Settles ends) (orders : List Int) :
    Node.Spares (Node.onBlock (Block.takeEnd ends)) orders blocks := by
  intro n _ hn
  cases n with
  | block b =>
    have hend : (ends b.startOrder).or b.endOrder = b.endOrder := h b (hn b rfl)
    simp only [Node.onBlock, Block.takeEnd, hend]
    cases b
    rfl
  | _ => rfl

/-- If the blocks inside a block settle then only its own end can change. -/
theorem Block.endAt_of_settles (b : Block) (h : ∀ c ∈ b.inner, c.Settles ends) :
    b.endAt ends = { b with endOrder := (ends b.startOrder).or b.endOrder } := by
  rw [Block.endAt, Block.mapInside_of_spares b (Block.spares_of_settles h _), Block.takeEnd]

theorem Node.allEndAt_of_settles (ns : List Node) (h : ∀ c ∈ Node.allBlocks ns, c.Settles ends) :
    Node.allEndAt ends ns = ns :=
  Node.mapAll_of_spares ns (Block.spares_of_settles h _)

theorem Block.endAt_hang (b : Block) (n : Node) (stop : Option Int) :
    ({ b.hang n with endOrder := stop } : Block).endAt ends =
      (({ b with endOrder := stop } : Block).endAt ends).hang (n.endAt ends) := by
  rw [Block.endAt, Block.endAt, Block.mapInside_end, Block.mapInside_end, Block.mapInside_hang]
  rfl

/-- A block takes the end that is given for it, whatever end it has. -/
theorem Block.endAt_given {b : Block} {stop : Int} (h : ends b.startOrder = some stop) (hin : ∀ c ∈ b.inner, c.Settles ends)
    (old : Option Int) : ({ b with endOrder := old } : Block).endAt ends = { b with endOrder := some stop } := by
  rw [Block.endAt_of_settles _ (by rwa [Block.inner_end])]
  simp [h]

/-! ## Closing a tree -/

/-- The ends of blocks with the given starts, the first of them at an order. -/
def closingItems (starts : List Int) (order : Nat) : List Statement :=
  (starts.zipIdx order).map fun e => Block.closing e.1 e.2

namespace Growth

/-- Nodes that have the same blocks apart from ends that are given are the same in what is
around them. -/
theorem endAt_enclose_congr {b c : Block} (outer : List Block)
    (h : ∀ stop, ({ b with endOrder := stop } : Block).endAt ends = ({ c with endOrder := stop } : Block).endAt ends)
    (stop : Option Int) : (enclose stop b outer).endAt ends = (enclose stop c outer).endAt ends := by
  induction outer generalizing b c with
  | nil => exact congrArg Node.block (h stop)
  | cons x outer ih =>
    refine ih fun stop' => ?_
    rw [Block.endAt_hang, Block.endAt_hang, Node.endAt_block, Node.endAt_block, h]

/-- Closing the blocks of a path one after the other ends each of them at its own order. -/
theorem foldl_closing (roots : List Node) {inner : Block} {outer : List Block} {order : Nat}
    (hends : ∀ e ∈ ((inner :: outer).map Block.startOrder).zipIdx order, ends e.1 = some (e.2 : Int))
    (hheaded : ∀ b ∈ outer, b.Headed) (hin : ∀ b ∈ inner :: outer, ∀ c ∈ b.inner, c.Settles ends) (stop : Option Int) :
    (closingItems ((inner :: outer).map Block.startOrder) order).foldl step ⟨roots, inner :: outer⟩ =
      ⟨roots ++ [(enclose stop inner outer).endAt ends], []⟩ := by
  -- Block by block from the innermost, each hung into the next with the end that it has got.
  induction outer generalizing inner order with
  | nil =>
    have hend := Block.endAt_given (hends (_, order) (by simp)) (hin inner (by simp))
    simp [closingItems, step, hang, enclose, Node.endAt_block, hend, Block.closing]
  | cons b outer ih =>
    have hinner : ends inner.startOrder = some (order : Int) := hends (_, order) (by simp)
    have hend := Block.endAt_given hinner (hin inner (by simp))
    have hb : b.Headed := hheaded b (by simp)
    refine (@ih (b.hang (.block { inner with endOrder := some (order : Int) })) (order + 1) ?_ ?_ ?_).trans ?_
    · intro e he
      exact hends e (List.mem_cons_of_mem _ he)
    · exact fun c hc => hheaded c (List.mem_cons_of_mem b hc)
    · intro c hc x hx
      rcases List.mem_cons.1 hc with rfl | hc
      · rw [Block.inner_hang hb, Node.blocks, List.mem_append, List.mem_cons, Block.inner_end] at hx
        rcases hx with hx | rfl | hx
        · exact hin b (by simp) x hx
        · simp [Block.Settles, hinner]
        · exact hin inner (by simp) x hx
      · exact hin c (by simp [hc]) x hx
    · have hsame : (enclose stop (b.hang (.block { inner with endOrder := some (order : Int) })) outer).endAt ends =
          (enclose stop (b.hang (.block { inner with endOrder := stop })) outer).endAt ends := by
        refine endAt_enclose_congr outer (fun stop' => ?_) stop
        rw [Block.endAt_hang, Block.endAt_hang, Node.endAt_block, Node.endAt_block, hend, hend]
      rw [hsame]
      rfl

/-- The starts of the blocks of a path that is hung together. -/
theorem starts_enclose (inner : Block) {outer : List Block} (ho : ∀ b ∈ outer, b.Headed) (stop : Option Int) :
    (enclose stop inner outer).blocks.map Block.startOrder =
      (inner :: outer).reverse.flatMap fun b => b.startOrder :: b.inner.map Block.startOrder := by
  induction outer generalizing inner with
  | nil => simp [enclose, Node.blocks, Block.inner_end]
  | cons b outer ih =>
    simp only [List.mem_cons, forall_eq_or_imp] at ho
    refine (ih _ ho.2).trans ?_
    have hstart : (b.hang (.block { inner with endOrder := stop })).startOrder = b.startOrder := rfl
    simp [Block.inner_hang ho.1, Node.blocks, Block.inner_end, hstart]

theorem ofPast_append (newer older : List Statement) :
    ofPast (newer ++ older) = newer.reverse.foldl step (ofPast older) := by
  induction newer with
  | nil => rfl
  | cons item newer ih => simp [ofPast, ih]

end Growth

namespace Grown

variable {opens : List OpenBlock} {items : List Statement} {g : Growth}

/-- No block that is done starts where an open one does. -/
theorem starts_apart (h : Grown opens items g) (hn : (items.map Statement.order).Nodup) {c : Block}
    (hc : c ∈ Node.allBlocks g.roots ∨ ∃ b ∈ g.path, c ∈ b.inner) : c.startOrder ∉ g.path.map Block.startOrder := by
  intro hopen
  obtain ⟨b, hb, hbc⟩ := List.mem_map.1 hopen
  have hstarts := Node.nodup_starts h.nodes.1 hn
  have hnodes : (Node.allBlocks (g.nodes none)).map Block.startOrder = (Node.allBlocks g.roots).map Block.startOrder ++
      g.path.reverse.flatMap fun b => b.startOrder :: b.inner.map Block.startOrder := by
    unfold Growth.nodes
    cases hg : g.path with
    | nil => simp
    | cons inner outer =>
      have houter : ∀ b ∈ outer, b.Headed := fun b hb => (h.headed b (by simp [hg, hb])).1
      have := Growth.starts_enclose inner houter none
      simp only [Node.allBlocks_append, Node.allBlocks, List.append_nil, List.map_append, this]
  rw [hnodes] at hstarts
  obtain ⟨-, hpath, hdisjoint⟩ := List.nodup_append.1 hstarts
  rcases hc with hc | ⟨b', hb', hc⟩
  · refine hdisjoint c.startOrder (List.mem_map_of_mem hc) b.startOrder ?_ hbc.symm
    exact List.mem_flatMap.2 ⟨b, List.mem_reverse.2 hb, by simp⟩
  · obtain ⟨heach, hpair⟩ := List.nodup_flatMap.1 hpath
    by_cases he : b = b'
    · subst he
      refine (List.nodup_cons.1 (heach b (List.mem_reverse.2 hb))).1 ?_
      exact hbc ▸ List.mem_map_of_mem hc
    · have hsymm : Std.Symm (Function.onFun List.Disjoint fun b : Block => b.startOrder :: b.inner.map Block.startOrder) :=
        ⟨fun _ _ hd _ hx hy => hd hy hx⟩
      have hapart := hpair.forall (List.mem_reverse.2 hb) (List.mem_reverse.2 hb') he
      exact hapart (a := b.startOrder) (by simp) (List.mem_cons_of_mem _ (hbc ▸ List.mem_map_of_mem hc))

/-- A tree whose open blocks are closed one after the other is the tree that ends them
together, but for their ends. -/
theorem close (h : Grown opens items g) (hn : (items.map Statement.order).Nodup) {order : Nat}
    (hends : ∀ e ∈ (g.path.map Block.startOrder).zipIdx order, ends e.1 = some (e.2 : Int))
    (hother : ∀ start, start ∉ g.path.map Block.startOrder → ends start = none) (stop : Option Int) :
    (closingItems (g.path.map Block.startOrder) order).foldl Growth.step g = ⟨Node.allEndAt ends (g.nodes stop), []⟩ := by
  have hsettles : ∀ c, (c ∈ Node.allBlocks g.roots ∨ ∃ b ∈ g.path, c ∈ b.inner) → c.Settles ends := by
    intro c hc
    simp [Block.Settles, hother _ (h.starts_apart hn hc)]
  have hroots := Node.allEndAt_of_settles g.roots fun c hc => hsettles c (.inl hc)
  obtain ⟨roots, path⟩ := g
  cases path with
  | nil => simp [closingItems, Growth.nodes, hroots]
  | cons inner outer =>
    have hclosing := Growth.foldl_closing roots hends (fun b hb => (h.headed b (by simp [hb])).1)
      (fun b hb c hc => hsettles c (.inr ⟨b, hb, hc⟩)) stop
    rw [hclosing, Growth.nodes, Node.allEndAt, Node.mapAll_append, ← Node.allEndAt, hroots]
    rfl

end Grown

/-! ## Timelines -/

namespace History

theorem start_nonneg {past : List Statement} (h : History past) : ∀ o ∈ openAfter past, 0 ≤ o.start := by
  induction past with
  | nil => simp [openAfter]
  | cons item older ih =>
    have ih := ih h.2
    cases item with
    | blockStart s =>
      have hs : s.order = older.length := h.1.1
      simp only [openAfter, List.mem_cons, forall_eq_or_imp]
      exact ⟨by omega, ih⟩
    | blockBranch b =>
      obtain ⟨-, o, outer, ho, -⟩ := h.1
      simp only [openAfter, ho, List.mem_cons, forall_eq_or_imp] at ih ⊢
      exact ih
    | blockEnd e => exact fun o ho => ih o (List.mem_of_mem_tail ho)
    | _ => exact ih

/-- An item that opens a block says nothing about its branches and its end. -/
theorem endAt_eq {past : List Statement} (h : History past) (hends : ends (-1) = none) :
    ∀ item ∈ past, item.endAt ends = item := by
  induction past with
  | nil => simp
  | cons item older ih =>
    refine List.forall_mem_cons.2 ⟨?_, ih h.2⟩
    cases item with
    | blockStart s =>
      obtain ⟨-, hbranches, hstart, hstop⟩ := h.1
      obtain ⟨⟨kind, label, color, branches, start, stop⟩, order⟩ := s
      simp only at hbranches hstart hstop
      subst hbranches hstart hstop
      simp [Statement.endAt, Block.endAt, Block.takeEnd, Block.mapInside, Branch.mapAll, hends]
    | _ => rfl

theorem isPlaced {past : List Statement} (h : History past) : ∀ item ∈ past, item.isPlaced = true := by
  induction past with
  | nil => simp
  | cons item older ih =>
    refine List.forall_mem_cons.2 ⟨?_, ih h.2⟩
    cases item <;> first | rfl | exact h.1.elim

end History

/-- The block that an item opens, taken from a tree with other ends. -/
theorem Statement.fillIn_endAt {item : Statement} (h : item.endAt ends = item) (blocks : List Block) :
    item.fillIn (blocks.map (Block.endAt ends)) = (item.fillIn blocks).endAt ends := by
  cases item with
  | blockStart s =>
    have hblock : s.block.endAt ends = s.block := congrArg BlockStart.block (Statement.blockStart.inj h)
    have hstart : ((fun b : Block => b.startOrder == s.order) ∘ Block.endAt ends) = fun b => b.startOrder == s.order :=
      funext fun b => by rw [Function.comp_apply, Block.startOrder_endAt]
    simp only [Statement.fillIn, Statement.endAt, List.find?_map, hstart]
    cases blocks.find? fun b => b.startOrder == s.order <;> simp [hblock]
  | _ => rfl

/-! ## Drafts -/

namespace Draft

/-- The starts of the open blocks, innermost first. -/
def openStarts (d : Draft) : List Int := d.frames.blocks.map Prod.snd

/-- Where an open block ends if everything is closed. -/
def endOf? (d : Draft) (start : Int) : Option Int :=
  ((d.openStarts.zipIdx d.nextOrder).find? fun e => e.1 == start).map fun e => (e.2 : Int)

/-- The draft after everything in it is closed. -/
def closed (d : Draft) : Draft := d.run (List.replicate d.frames.length .close)

variable {d : Draft}

theorem run_close_frames (d : Draft) (n : Nat) : (d.run (List.replicate n .close)).frames = d.frames.drop n := by
  induction n generalizing d with
  | zero => rfl
  | succ n ih =>
    have hrun : d.run (List.replicate (n + 1) .close) = d.close.draft.run (List.replicate n .close) := rfl
    rw [hrun, ih]
    cases hf : d.frames with
    | nil => simp [close, hf, Frames.pop]
    | cons frame outer => cases hr : frame.region <;> simp [close, hf, Frames.pop, hr, append]

/-- Boxes are closed silently, and every block by an end at its own order. -/
theorem closed_eq (d : Draft) : ∃ statements,
    d.closed = { d with past := (closingItems d.openStarts d.nextOrder).reverse ++ d.past, statements, frames := [] } := by
  unfold closed
  generalize hf : d.frames = frames
  induction frames generalizing d with
  | nil =>
    obtain ⟨roster, past, statements, boxes, autonumber, frames, awaitingCreate, awaitingDestroy⟩ := d
    simp only at hf
    subst hf
    exact ⟨statements, rfl⟩
  | cons frame outer ih =>
    have hrun : d.run (List.replicate (frame :: outer).length .close) =
        d.close.draft.run (List.replicate outer.length .close) := rfl
    rw [hrun]
    cases hr : frame.region with
    | box =>
      have hclose : d.close.draft = { d with frames := outer } := by simp [close, hf, Frames.pop, hr]
      obtain ⟨statements, hs⟩ := ih { d with frames := outer } rfl
      refine ⟨statements, ?_⟩
      rw [hclose, hs]
      simp [openStarts, hf, Frames.blocks, hr, nextOrder]
    | block kind =>
      let after : Draft :=
        { d with past := Block.closing frame.content d.nextOrder :: d.past
                 statements := d.changed frame.content (Block.close · d.nextOrder), frames := outer }
      have hclose : d.close.draft = after := by simp [close, hf, Frames.pop, hr, append, Block.closing, after]
      obtain ⟨statements, hs⟩ := ih after rfl
      refine ⟨statements, ?_⟩
      rw [hclose, hs]
      simp [openStarts, hf, Frames.blocks, hr, nextOrder, closingItems, after]

theorem isBlockEnd_closingItems (starts : List Int) (order : Nat) :
    ∀ e ∈ closingItems starts order, e.isBlockEnd = true := by
  intro e he
  obtain ⟨x, -, rfl⟩ := List.mem_map.1 he
  rfl

theorem completes_closed (d : Draft) : Completes d d.closed (closingItems d.openStarts d.nextOrder).reverse := by
  obtain ⟨statements, hclosed⟩ := d.closed_eq
  rw [hclosed]
  refine ⟨fun e he => ?_, rfl, rfl, rfl, rfl, rfl, rfl, rfl⟩
  exact isBlockEnd_closingItems _ _ e (List.mem_reverse.1 he)

theorem Aligned.closed (ha : d.Aligned) : d.closed.Aligned := by
  obtain ⟨es, hs⟩ := steps_run d (List.replicate d.frames.length .close)
  exact hs.aligned ha

theorem Aligned.openStarts_eq (ha : d.Aligned) : d.openStarts = (openAfter d.past).map OpenBlock.start := by
  rw [openStarts, ← ha.frames, List.map_map]
  rfl

theorem Aligned.path_starts (ha : d.Aligned) : (Growth.ofPast d.past).path.map Block.startOrder = d.openStarts := by
  rw [ha.openStarts_eq, ← (grown_ofPast ha.history).path, List.map_map]
  rfl

theorem Aligned.endOf?_open (ha : d.Aligned) : ∀ e ∈ d.openStarts.zipIdx d.nextOrder, d.endOf? e.1 = some (e.2 : Int) := by
  intro e he
  have hnodup : ((d.openStarts.zipIdx d.nextOrder).map Prod.fst).Nodup := by
    rw [List.zipIdx_map_fst, ha.openStarts_eq]
    exact (History.start_lt ha.history).1.imp fun h => by omega
  rw [endOf?, find?_key Prod.fst hnodup he]
  rfl

theorem endOf?_other {start : Int} (h : start ∉ d.openStarts) : d.endOf? start = none := by
  rw [endOf?, Option.map_eq_none_iff, List.find?_eq_none]
  intro e he hstart
  have hmem : e.1 ∈ d.openStarts := List.fst_mem_of_mem_zipIdx he
  rw [beq_iff_eq] at hstart
  exact h (hstart ▸ hmem)

/-- The tree of a closed draft is that of the draft, but for the ends of what was open. -/
theorem Aligned.tree_closed (ha : d.Aligned) (stop stop' : Option Int) :
    d.closed.tree stop' = Node.allEndAt d.endOf? (d.tree stop) := by
  have hgrown := grown_ofPast ha.history
  have hopen : ∀ e ∈ ((Growth.ofPast d.past).path.map Block.startOrder).zipIdx d.nextOrder,
      d.endOf? e.1 = some (e.2 : Int) := by
    rw [ha.path_starts]
    exact ha.endOf?_open
  have hother : ∀ start, start ∉ (Growth.ofPast d.past).path.map Block.startOrder → d.endOf? start = none := by
    rw [ha.path_starts]
    exact fun start => endOf?_other
  have hclose := hgrown.close ha.history.nodup_orders hopen hother stop
  rw [ha.path_starts] at hclose
  rw [ha.closed.tree_eq, ha.tree_eq, d.completes_closed.past, Growth.ofPast_append, List.reverse_reverse, hclose]
  rfl

/-- The timeline of a closed draft is that of the draft with the ends of what was open behind
it, and in its blocks. -/
theorem Aligned.timeline_closed (ha : d.Aligned) (stop stop' : Option Int) :
    d.closed.timeline stop' =
      (d.timeline stop).map (Statement.endAt d.endOf?) ++ closingItems d.openStarts d.nextOrder := by
  have houtside : d.endOf? (-1) = none := by
    refine endOf?_other fun hmem => ?_
    rw [ha.openStarts_eq] at hmem
    obtain ⟨o, ho, hstart⟩ := List.mem_map.1 hmem
    have := History.start_nonneg ha.history o ho
    omega
  have hends : ∀ blocks, (closingItems d.openStarts d.nextOrder).map (Statement.fillIn blocks) =
      closingItems d.openStarts d.nextOrder := by
    intro blocks
    simp only [closingItems, List.map_map]
    rfl
  unfold timeline
  simp only [ha.tree_closed stop stop', Node.allBlocks_endAt, d.completes_closed.past, List.reverse_append, List.reverse_reverse,
    List.map_append, hends, List.map_map]
  refine congrArg (· ++ _) (List.map_congr_left fun item hi => ?_)
  exact Statement.fillIn_endAt (History.endAt_eq ha.history houtside item (List.mem_reverse.1 hi)) _

/-! ## Texts -/

theorem line_of_valid {n : Note} (h : n.fault? = none) : ∃ text, n.line = .ok text := by
  obtain ⟨htargets, -⟩ := (Note.fault?_eq_none_iff n).1 h
  obtain ⟨target, rest, hcons⟩ := List.exists_cons_of_ne_nil htargets
  unfold Note.line Note.targetText?
  cases n.placement <;> simp [hcons]

theorem Coherent.isPlaced (hd : d.Coherent) : ∀ item ∈ d.build.timeline, item.isPlaced = true := by
  intro item hi
  have hbare : item.bare ∈ d.past.reverse := build_timeline hd.aligned ▸ List.mem_map_of_mem hi
  have hplaced := History.isPlaced hd.aligned.history _ (List.mem_reverse.1 hbare)
  cases item <;> first | rfl | cases hplaced

/-- Every diagram that operations build can be written. -/
theorem Coherent.write_build (hd : d.Coherent) (stand : Text.Half → Char) (layout : Layout) :
    ∃ text, (d.build.standing stand).write layout = .ok text := by
  have hhistory : History (d.past.reverse.reverse ++ []) := by simpa using hd.aligned.history
  have hlines := Diagram.timelineLines_eq (m := d.build.standing stand) hhistory fun n hn =>
    line_of_valid (hd.valid _ (List.mem_reverse.1 hn))
  rw [← build_timeline hd.aligned, Diagram.timelineLines_bare] at hlines
  have htimeline := Diagram.timeline_standing stand hd.isPlaced
  obtain ⟨lines, hlines⟩ : ∃ lines, (d.build.standing stand).timelineLines [] d.build.timeline = .ok lines := ⟨_, hlines⟩
  simp [Diagram.write, Diagram.lines, htimeline, hlines, Except.map]

/-! ## Main theorem -/

/-- After any operations, everything that is open can be closed one by one, which leaves
nothing open. The diagram that is built then has the same timeline, followed by one end for
every open block, innermost first, and only these blocks have other ends in it. Both diagrams
are written as the same text. -/
theorem build_closed (ops : List Operation) :
    let d := run {} ops
    (∀ n, (d.run (List.replicate n .close)).frames = d.frames.drop n) ∧
      d.closed.build.timeline =
        d.build.timeline.map (Statement.endAt d.endOf?) ++ closingItems d.openStarts d.nextOrder ∧
      (∀ stand layout, ∃ text, (d.build.standing stand).write layout = .ok text ∧
        (d.closed.build.standing stand).write layout = .ok text) ∧
      ∀ stand indent declareImplicit, (d.closed.build.standing stand).writeWith indent declareImplicit =
        (d.build.standing stand).writeWith indent declareImplicit := by
  intro d
  have hd : d.Coherent := coherent_run ops
  have hd' : d.closed.Coherent := by
    obtain ⟨es, hs⟩ := steps_run d (List.replicate d.frames.length .close)
    exact hs.keep (P := fun _ => True) (fun _ => Step.coherent) (fun _ _ => trivial) hd
  have halike : ∀ stand layout, Diagram.Alike layout (d.build.standing stand) (d.closed.build.standing stand) := by
    intro stand layout
    have hcopies := (d.completes_closed.copies hd.aligned hd'.aligned (m := d.build) rfl).standing stand
    have hbare : (d.build.standing stand).timeline.map Statement.bare = d.past.reverse := by
      rw [Diagram.timeline_standing stand hd.isPlaced]
      exact build_timeline hd.aligned
    have hbare' : (d.closed.build.standing stand).timeline.map Statement.bare =
        d.past.reverse ++ closingItems d.openStarts d.nextOrder := by
      rw [Diagram.timeline_standing stand hd'.isPlaced, build_timeline hd'.aligned, d.completes_closed.past]
      simp
    exact hcopies.alike_ends (isBlockEnd_closingItems d.openStarts d.nextOrder) hbare hbare'
  refine ⟨run_close_frames d, hd.aligned.timeline_closed _ _, fun stand layout => ?_, fun stand indent declareImplicit => ?_⟩
  · obtain ⟨text, htext⟩ := hd.write_build stand layout
    refine ⟨text, htext, ?_⟩
    have hlines := (halike stand layout).lines
    unfold Diagram.write at htext ⊢
    rw [hlines, htext]
  · unfold Diagram.writeWith
    cases Layout.ofIndent indent declareImplicit with
    | error e => rfl
    | ok layout => exact (halike stand layout).writeWithin

end Draft

end Lifeline
