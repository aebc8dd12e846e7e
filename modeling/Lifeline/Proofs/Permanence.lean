import Lifeline.Proofs.Closing
import Lifeline.Proofs.Script
/-!
# What an operation leaves as it was

An operation that fails changes nothing but the participants, and to these it adds at most
implicit ones that it names (`Draft.failed_operation`). An operation that works adds at most
one item at the end of the timeline. What stands there already stays, except that the last
message may take an activation and that labels grow; and a block that is closed stays as it
is for ever (`Draft.successful_operation`).
-/

namespace Lifeline

open History

namespace Draft

variable {d d' : Draft}

/-! ## Operations that fail -/

/-- Mentions only put implicit participants of new ids at the end of the roster. -/
theorem Steps.mentions {ids : List String} (h : Steps d (ids.map .mention) d') :
    ∃ new : List String, new.Sublist ids ∧ new.Nodup ∧ (∀ id ∈ new, id ∉ d.roster.ids) ∧
      d' = { d with roster := ⟨d.roster.participants ++ new.map Participant.implicit⟩ } := by
  induction ids generalizing d with
  | nil =>
    cases h
    exact ⟨[], .slnil, .nil, by simp, by simp⟩
  | cons id ids ih =>
    cases h with
    | cons h hs =>
      obtain ⟨new, hsub, hnodup, hnew, rfl⟩ := ih hs
      cases h with
      | mention h =>
        rcases Roster.mention?_eq_some h with ⟨-, rfl⟩ | ⟨hc, -, rfl⟩
        · exact ⟨new, hsub.cons id, hnodup, hnew, rfl⟩
        · simp only [Roster.ids_add, List.mem_append, List.mem_singleton, not_or] at hnew
          rw [Roster.contains_eq, List.contains_eq_mem, decide_eq_false_iff_not] at hc
          refine ⟨id :: new, hsub.cons_cons id, ?_, ?_, by simp [Roster.add]⟩
          · exact List.nodup_cons.2 ⟨fun hm => (hnew id hm).2 rfl, hnodup⟩
          · simp only [List.mem_cons, forall_eq_or_imp]
            exact ⟨hc, fun i hi => (hnew i hi).1⟩

/-- A failed operation leaves the timeline, the tree, the boxes, the numbering, the open
frames and what waits for a message as they were. The participants stay as well, and behind
them come at most new implicit ones whose ids the operation names. -/
theorem failed_operation (d : Draft) (op : Operation) (e : DraftError) (h : (d.apply op).result = .error e) :
    let d' := (d.apply op).draft
    (∀ stop, d'.timeline stop = d.timeline stop ∧ d'.tree stop = d.tree stop) ∧
      d'.boxes = d.boxes ∧ d'.autonumber = d.autonumber ∧ d'.frames = d.frames ∧
      d'.awaitingCreate = d.awaitingCreate ∧ d'.awaitingDestroy = d.awaitingDestroy ∧
      ∃ new : List String, new.Sublist op.names ∧ new.Nodup ∧ (∀ id ∈ new, id ∉ d.roster.ids) ∧
        d'.roster.participants = d.roster.participants ++ new.map Participant.implicit := by
  obtain ⟨some, hsome, hs⟩ := steps_of_error h
  obtain ⟨new, hsub, hnodup, hnew, hd⟩ := hs.mentions
  rw [hd]
  exact ⟨fun _ => ⟨rfl, rfl⟩, rfl, rfl, rfl, rfl, rfl, new, hsub.trans hsome.sublist, hnodup, hnew, rfl⟩

/-- A note over two participants and an empty id registers the one that is new. -/
theorem failed_operation_note :
    let d := run {} [.addMessage { source := ⟨"A", false, false⟩, target := ⟨"B", false, false⟩ }]
    let op : Operation := .addNote { placement := .over, targets := ["A", "C", ""] }
    (d.apply op).result = .error .emptyId ∧
      (d.apply op).draft.roster.ids = ["A", "B", "C"] ∧
      (∀ stop, (d.apply op).draft.timeline stop = d.timeline stop) := by
  intro d op
  have h : (d.apply op).result = .error .emptyId := rfl
  exact ⟨h, by decide, fun stop => ((failed_operation d op .emptyId h).1 stop).1⟩

end Draft

/-! ## The timeline after an operation that works -/

/-- A message that has one activation or deactivation more, at an end that was free. -/
def Message.Marked (m m' : Message) : Prop :=
  ∃ activate,
    (m.target.isFree = true ∧ m' = { m with target := Draft.mark activate m.target }) ∨
      (m.source.isFree = true ∧ m' = { m with source := Draft.mark activate m.source })

/-- Whether an item can no longer grow: it opens neither a block nor a branch. -/
def Statement.isFixed : Statement → Bool
  | .blockStart _ | .blockBranch _ => false
  | _ => true

namespace Draft

variable {d d' : Draft}

/-- What one operation can make of a timeline, given latest first. -/
inductive Turn : List Statement → List Statement → Prop where
  | same {past} : Turn past past
  | push {past} (item : Statement) : Turn past (item :: past)
  | fold {m m' older} (h : m.Marked m') : Turn (.message m :: older) (.message m' :: older)
  | extend {past} (text : String) {start : Int} (h : start ∈ (openAfter past).map OpenBlock.start) :
      Turn past (changeFirst (opensBranchOf start) (growItem text) past)

theorem marked_of_fold? {m m' : Message} {id : String} {activate : Bool} (h : fold? m id activate = some m') :
    m.Marked m' := by
  unfold fold? at h
  split at h
  · rename_i hc
    simp only [Bool.and_eq_true] at hc
    exact ⟨activate, .inl ⟨hc.2, (Option.some.inj h).symm⟩⟩
  · split at h
    · rename_i hc
      simp only [Bool.and_eq_true] at hc
      exact ⟨activate, .inr ⟨hc.2, (Option.some.inj h).symm⟩⟩
    · cases h

theorem Step.turn {e : Event} (h : Step d e d') (ha : d.Aligned) : Turn d.past d'.past := by
  cases h with
  | mention | link | number | openBox | closeBox => exact .same
  | declare =>
    rw [past_joinBox]
    exact .same
  | message =>
    rw [past_settle]
    exact .push _
  | fold h hp hm =>
    rw [hp]
    exact .fold (marked_of_fold? hm)
  | create | destroyAtLast | destroyLater | note | activation | openBlock | openBranch | closeBlock => exact .push _
  | extend hf =>
    rw [(ha.grows hf _).1]
    exact .extend _ (ha.mem_open_of_frame hf)

/-- Links leave the timeline alone. -/
theorem Steps.past_links {id : String} {ls : List Link} (h : Steps d (ls.map (.link id)) d') :
    d'.past = d.past := by
  refine h.keep (I := fun x => x.past = d.past) (P := fun e => ∃ l, e = .link id l) ?_ (by simp) rfl
  rintro x _ x' ⟨l, rfl⟩ hs hx
  cases hs
  exact hx

/-- A statement comes down to one event, or to links. -/
theorem statementEvents_shape (d : Draft) (statement : Statement) :
    (∃ e, Operation.statementEvents d statement = [e]) ∨
      ∃ id ls, Operation.statementEvents d statement = List.map (Event.link id) ls := by
  cases statement with
  | directive x =>
    simp only [Operation.statementEvents]
    cases x.kind with
    | create => cases d.roster.get? x.id <;> exact .inl ⟨_, rfl⟩
    | _ => exact .inl ⟨_, rfl⟩
  | declaration p =>
    simp only [Operation.statementEvents]
    split <;> exact .inl ⟨_, rfl⟩
  | links l => exact .inr ⟨_, _, rfl⟩
  | _ => exact .inl ⟨_, rfl⟩

/-- An operation comes down to one event at most, or to links. -/
theorem events_shape (d : Draft) (op : Operation) :
    op.events d = [] ∨ (∃ e, op.events d = [e]) ∨ ∃ id ls, op.events d = List.map (Event.link id) ls := by
  cases op with
  | addBranch label line =>
    simp only [Operation.events]
    cases d.frames.branchKeyword with
    | ok keyword => exact .inr (.inl ⟨_, rfl⟩)
    | error e => exact .inl rfl
  | extendLabel text =>
    simp only [Operation.events]
    split
    · exact .inr (.inl ⟨_, rfl⟩)
    · exact .inl rfl
  | feed statement line => exact .inr (statementEvents_shape d statement)
  | _ => exact .inr (.inl ⟨_, rfl⟩)

theorem turn_of_ok {op : Operation} {a : Answer} (h : (d.apply op).result = .ok a) (ha : d.Aligned) :
    Turn d.past (d.apply op).draft.past := by
  have hs := steps_of_ok h
  generalize (d.apply op).draft = d' at hs
  rcases events_shape d op with he | ⟨e, he⟩ | ⟨id, ls, he⟩
  · rw [he] at hs
    cases hs
    exact .same
  · rw [he] at hs
    exact (Steps.single_iff.1 hs).turn ha
  · rw [he] at hs
    rw [hs.past_links]
    exact .same

theorem length_changeFirst (p : Statement → Bool) (change : Statement → Statement) (past : List Statement) :
    (changeFirst p change past).length = past.length := by
  induction past with
  | nil => rfl
  | cons item older ih =>
    unfold changeFirst
    split <;> simp [ih]

namespace Turn

variable {past past' : List Statement}

theorem length (h : Turn past past') : past'.length = past.length ∨ past'.length = past.length + 1 := by
  cases h with
  | same | fold => exact .inl rfl
  | push => exact .inr rfl
  | extend => exact .inl (length_changeFirst _ _ past)

/-- But for activations, labels and colours, a timeline is continued. -/
theorem outlines (h : Turn past past') : past.reverse.map outline <+: past'.reverse.map outline := by
  cases h with
  | same => exact List.prefix_rfl
  | push item => simp
  | fold hm =>
    obtain ⟨activate, ⟨-, rfl⟩ | ⟨-, rfl⟩⟩ := hm <;> cases activate <;> simp [outline, mark]
  | @extend past text start =>
    have hsame : (changeFirst (opensBranchOf start) (growItem text) past).map outline = past.map outline :=
      outline_changeFirst (outline_growItem text) _ past
    exact ⟨[], by rw [List.append_nil, List.map_reverse, List.map_reverse, hsame]⟩

/-- What can no longer grow stays at its place, except that the last item may be a message
that takes an activation. -/
theorem keeps (h : Turn past past') {i : Nat} {item : Statement} (hi : past.reverse[i]? = some item)
    (hf : item.isFixed = true) :
    past'.reverse[i]? = some item ∨
      (i + 1 = past.length ∧ past'.length = past.length ∧
        ∃ m m', item = .message m ∧ past'.reverse[i]? = some (.message m') ∧ m.Marked m') := by
  have hlt : i < past.length := by simpa using (List.getElem?_eq_some_iff.1 hi).1
  cases h with
  | same => exact .inl hi
  | push x =>
    rw [List.reverse_cons, List.getElem?_append_left (by simpa using hlt)]
    exact .inl hi
  | @fold m m' older hm =>
    simp only [List.reverse_cons, List.length_cons] at hi hlt ⊢
    rcases Nat.lt_succ_iff_lt_or_eq.1 hlt with hlt | rfl
    · rw [List.getElem?_append_left (by simpa using hlt)] at hi ⊢
      exact .inl hi
    · rw [List.getElem?_append_right (by simp)] at hi ⊢
      simp only [List.length_reverse, Nat.sub_self, List.getElem?_cons_zero, Option.some.injEq] at hi ⊢
      exact .inr ⟨trivial, trivial, m, m', hi.symm, rfl, hm⟩
  | @extend _ text start hs =>
    -- a longer label is not seen if only what is fixed is looked at
    let view (x : Statement) : Option Statement := if x.isFixed then some x else none
    have hv : ∀ text x, view (growItem text x) = view x := fun text x => by cases x <;> rfl
    have hmap := congrArg (fun xs => xs.reverse[i]?) (map_changeFirst hv (opensBranchOf start) text past)
    simp only [← List.map_reverse, List.getElem?_map, hi, Option.map_some, Option.map_eq_some_iff] at hmap
    obtain ⟨x, hx, hxv⟩ := hmap
    simp only [view, hf, if_true] at hxv
    split at hxv
    · rw [hx, hxv]
      exact .inl rfl
    · cases hxv

end Turn

end Draft

/-! ## Closed blocks -/

/-- The blocks of a growing tree that are not on its path. -/
def Growth.finished (g : Growth) : List Block := Node.allBlocks g.roots ++ g.path.flatMap Block.inner

theorem Block.inner_addBranch (b : Block) (label : Option String) (order : Int) :
    (b.addBranch label order).inner = b.inner := by
  cases b
  simp [addBranch, inner, Branch.allBlocks_append, Branch.allBlocks, Branch.blocks, Node.allBlocks]

namespace Growth

variable {g : Growth} {past : List Statement}

/-- What hangs in a path is behind what was finished before. -/
theorem mem_finished_hang (hg : ∀ b ∈ g.path, b.Headed) (n : Node) (c : Block) :
    c ∈ (g.hang n).finished ↔ c ∈ g.finished ∨ c ∈ n.blocks := by
  obtain ⟨roots, path⟩ := g
  cases path with
  | nil => simp [hang, finished, Node.allBlocks_append, Node.allBlocks]
  | cons b outer =>
    simp only [List.mem_cons, forall_eq_or_imp] at hg
    simp only [hang, finished, List.flatMap_cons, Block.inner_hang hg.1, List.mem_append]
    tauto

/-- With a further item, what was finished still is. -/
theorem finished_step {item : Statement} (h : History (item :: past)) {c : Block} (hc : c ∈ (ofPast past).finished) :
    c ∈ (ofPast (item :: past)).finished := by
  have hhead := headed_ofPast h.2
  rw [ofPast]
  cases item with
  | message | note | directive => exact (mem_finished_hang hhead _ c).2 (.inl hc)
  | blockStart s =>
    simp only [finished, step, List.flatMap_cons, List.mem_append] at hc ⊢
    exact hc.imp_right .inr
  | blockBranch b =>
    cases hp : (ofPast past).path with
    | nil => simpa only [step, hp] using hc
    | cons inner outer =>
      simpa only [step, finished, hp, List.flatMap_cons, Block.inner_addBranch] using hc
  | blockEnd e =>
    cases hp : (ofPast past).path with
    | nil => simpa only [step, hp] using hc
    | cons inner outer =>
      simp only [step, hp]
      refine (mem_finished_hang (fun b hb => hhead b (by simp [hp, hb])) _ c).2 ?_
      simp only [finished, hp, List.flatMap_cons, List.mem_append, Node.blocks, List.mem_cons, Block.inner_end] at hc ⊢
      tauto
  | _ => exact hc

end Growth

/-- Another label makes no difference to what is inside a block. -/
theorem Block.inner_relabel (b : Block) (label : Option String) : (b.relabel label).inner = b.inner := by
  have hbranches : ∀ bs : List Branch,
      Branch.allBlocks (Branch.changeLast (fun c => { c with label }) bs) = Branch.allBlocks bs := by
    intro bs
    induction bs with
    | nil => rfl
    | cons b bs ih =>
      cases bs with
      | nil =>
        cases b
        rfl
      | cons c cs => exact congrArg (b.blocks ++ ·) ih
  cases b
  exact hbranches _

namespace Growth

variable {past : List Statement}

/-- Labels grow without any difference to what is finished. -/
theorem finished_grow (g : Growth) (start : Int) (text : String) : (g.grow start text).finished = g.finished := by
  have hinner : ∀ b : Block, (if b.startOrder = start then b.grow text else b).inner = b.inner := by
    intro b
    split
    · exact b.inner_relabel _
    · rfl
  simp only [finished, grow, List.flatMap_map, hinner]

/-- In an open block that is hung into those around it, what is closed was closed inside one of them. -/
theorem mem_enclose {inner : Block} {outer : List Block} (ho : ∀ b ∈ outer, b.Headed) {c : Block}
    (hc : c.isOpen = false) :
    c ∈ (enclose none inner outer).blocks ↔ c ∈ (inner :: outer).flatMap Block.inner := by
  have hpending : ∀ b : Block, c ∈ b.pending.blocks ↔ c ∈ b.inner := by
    intro b
    simp only [Block.pending, Node.blocks, Block.inner_end, List.mem_cons]
    refine or_iff_right ?_
    rintro rfl
    cases hc
  induction outer generalizing inner with
  | nil => exact (hpending inner).trans (by simp)
  | cons b outer ih =>
    simp only [List.mem_cons, forall_eq_or_imp] at ho
    have hinner := hpending inner
    have hrest := @ih (b.hang inner.pending) ho.2
    simp only [List.flatMap_cons, List.mem_append, Block.inner_hang ho.1, hinner] at hrest ⊢
    refine hrest.trans ?_
    tauto

/-- The closed blocks of a draft's tree are those that are not on the path along which it grows. -/
theorem mem_finished (h : History past) (c : Block) :
    c ∈ (ofPast past).finished ↔ c ∈ Node.allBlocks ((ofPast past).nodes none) ∧ c.endOrder.isSome = true := by
  have hg := grown_ofPast h
  have hhead := headed_ofPast h
  have hdone : c ∈ (ofPast past).finished → c.endOrder.isSome = true := by
    simp only [finished, List.mem_append, List.mem_flatMap]
    rintro (hc | ⟨b, hb, hc⟩)
    · exact (hg.roots c hc).2
    · exact (hg.within b hb c hc).2
  have hnodes : c.isOpen = false → (c ∈ Node.allBlocks ((ofPast past).nodes none) ↔ c ∈ (ofPast past).finished) := by
    intro hc
    unfold nodes finished
    cases hp : (ofPast past).path with
    | nil => simp
    | cons inner outer =>
      have houter : ∀ b ∈ outer, b.Headed := fun b hb => hhead b (by simp [hp, hb])
      simp [Node.allBlocks_append, Node.allBlocks, mem_enclose houter hc]
  refine ⟨fun hc => ⟨(hnodes ?_).2 hc, hdone hc⟩, fun hc => (hnodes ?_).1 hc.1⟩
  · simpa [Block.isOpen] using hdone hc
  · simpa [Block.isOpen] using hc.2

end Growth

namespace Draft

variable {d d' : Draft}

/-- No turn of a timeline touches what is finished. -/
theorem Turn.finished {past past' : List Statement} (h : Turn past past') (hp : History past) (hp' : History past')
    {c : Block} (hc : c ∈ (Growth.ofPast past).finished) : c ∈ (Growth.ofPast past').finished := by
  cases h with
  | same => exact hc
  | push item => exact Growth.finished_step hp' hc
  | @fold m m' older hm =>
    -- a message holds no blocks, so another one in its place makes no difference
    have hhang (m : Message) := Growth.mem_finished_hang (Growth.headed_ofPast hp.2) (.message m) c
    simp only [Node.blocks, List.not_mem_nil, or_false] at hhang
    exact (hhang m').2 ((hhang m).1 hc)
  | extend text hs => rwa [Growth.ofPast_grow hp hs, Growth.finished_grow]

/-- A closed block of a draft stays closed and as it is, whatever happens later. -/
theorem Aligned.blockAt?_run (ha : d.Aligned) {b : Block} (hb : b ∈ Node.allBlocks (d.tree none))
    (hend : b.endOrder.isSome = true) (later : List Operation) : (d.run later).blockAt? b.startOrder = some b := by
  obtain ⟨es, hs⟩ := steps_run d later
  have hkeep : (d.run later).Aligned ∧ b ∈ (Growth.ofPast (d.run later).past).finished := by
    refine hs.keep (I := fun x => x.Aligned ∧ b ∈ (Growth.ofPast x.past).finished) (P := fun _ => True) ?_
      (fun _ _ => trivial) ⟨ha, (Growth.mem_finished ha.history b).2 ⟨ha.tree_eq none ▸ hb, hend⟩⟩
    intro x e x' _ hstep hx
    have hx' := hstep.aligned hx.1
    exact ⟨hx', (hstep.turn hx.1).finished hx.1.history hx'.history hx.2⟩
  obtain ⟨ha', hb'⟩ := hkeep
  have hmem := ((Growth.mem_finished ha'.history b).1 hb').1
  have hstarts := Node.nodup_starts (grown_ofPast ha'.history).nodes.1 ha'.history.nodup_orders
  rw [← ha'.grown] at hmem hstarts
  exact find?_key Block.startOrder hstarts hmem

/-- What can no longer grow stands in a timeline as it does in the past. -/
theorem timeline_fixed (d : Draft) (stop : Option Int) {i : Nat} {item : Statement} (hf : item.isFixed = true) :
    (d.timeline stop)[i]? = some item ↔ d.past.reverse[i]? = some item := by
  have hfill : ∀ blocks x, Statement.fillIn blocks x = item ↔ x = item := by
    intro blocks x
    cases x <;> first | exact .rfl | (constructor <;> rintro rfl <;> cases hf)
  simp only [timeline, List.getElem?_map, Option.map_eq_some_iff, hfill, exists_eq_right]

/-! ## Main theorem -/

/-- An operation that works, after any run, adds at most one item at the end of the timeline, and
the items that were there stay the same but for activations, labels, colours and what grows into
blocks. Every message, note, directive and end of a block that stood there stays, except that the
last item may be a message that takes an activation or a deactivation at an end that was free.
And every block that is closed stays as it is, with its branches and what they hold, whatever
happens later. -/
theorem successful_operation (ops : List Operation) (op : Operation) (a : Answer)
    (h : ((run {} ops).apply op).result = .ok a) :
    let d := run {} ops
    let d' := (d.apply op).draft
    (∀ stop, (d'.timeline stop).length = (d.timeline stop).length ∨
        (d'.timeline stop).length = (d.timeline stop).length + 1) ∧
      (∀ stop, (d.timeline stop).map (outline ∘ Statement.bare) <+: (d'.timeline stop).map (outline ∘ Statement.bare)) ∧
      (∀ stop i item, (d.timeline stop)[i]? = some item → item.isFixed = true →
        (d'.timeline stop)[i]? = some item ∨
          (i + 1 = (d.timeline stop).length ∧ (d'.timeline stop).length = (d.timeline stop).length ∧
            ∃ m m', item = .message m ∧ (d'.timeline stop)[i]? = some (.message m') ∧ m.Marked m')) ∧
      ∀ b ∈ Node.allBlocks (d.tree none), b.endOrder.isSome = true →
        ∀ later, (d'.run later).blockAt? b.startOrder = some b := by
  intro d d'
  have ha : d.Aligned := aligned_run ops
  have ha' : d'.Aligned := by
    obtain ⟨es, hs⟩ := steps_apply d op
    exact hs.keep (P := fun _ => True) (fun _ => Step.aligned) (fun _ _ => trivial) ha
  have hturn : Turn d.past d'.past := turn_of_ok h ha
  refine ⟨fun stop => ?_, fun stop => ?_, fun stop i item hi hf => ?_, fun b hb hend later => ?_⟩
  · simpa [timeline] using hturn.length
  · rw [← List.map_map, ← List.map_map, timeline_bare ha, timeline_bare ha']
    exact hturn.outlines
  · rw [timeline_fixed d stop hf] at hi
    rw [timeline_fixed d' stop hf]
    simp only [timeline, List.length_map, List.length_reverse]
    refine (hturn.keeps hi hf).imp_right ?_
    rintro ⟨hlast, hlen, m, m', rfl, hm', hm⟩
    exact ⟨hlast, hlen, m, m', rfl, (timeline_fixed d' stop rfl).2 hm', hm⟩
  · exact ha.blockAt?_run hb hend (op :: later)

/-- A message in a loop, and the same message once more behind it. -/
def loopAndMessage : List Operation :=
  let m : Message := { source := ⟨"A", false, false⟩, target := ⟨"B", false, false⟩ }
  [.startBlock .loop none none none, .addMessage m, .close, .addMessage m]

/-- An activation is folded into the last message; the message inside the loop and the loop itself
stay as they are. -/
theorem successful_operation_activate :
    let m : Message := { source := ⟨"A", false, false⟩, target := ⟨"B", false, false⟩ }
    let d' := ((run {} loopAndMessage).apply (.activate "B")).draft
    (d'.timeline none)[3]? = some (.message { m with target := ⟨"B", true, false⟩, order := 3 }) ∧
      (d'.timeline none)[1]? = some (.message { m with order := 1 }) ∧
      ∀ later, ∃ b, (d'.run later).blockAt? 0 = some b ∧ b.endOrder = some 2 := by
  have hresult : ((run {} loopAndMessage).apply (.activate "B")).result =
      .ok (.message { source := ⟨"A", false, false⟩, target := ⟨"B", true, false⟩, order := 3 }) := rfl
  have hlast : (((run {} loopAndMessage).apply (.activate "B")).draft.timeline none)[3]? =
      some (.message { source := ⟨"A", false, false⟩, target := ⟨"B", true, false⟩, order := 3 }) := rfl
  have hinside : ((run {} loopAndMessage).timeline none)[1]? =
      some (.message { source := ⟨"A", false, false⟩, target := ⟨"B", false, false⟩, order := 1 }) := rfl
  have hloop : ∃ b ∈ Node.allBlocks ((run {} loopAndMessage).tree none), b.startOrder = 0 ∧ b.endOrder = some 2 :=
    ⟨_, List.mem_of_getElem? (i := 0) rfl, rfl, rfl⟩
  obtain ⟨-, -, hkeeps, hclosed⟩ := successful_operation _ _ _ hresult
  refine ⟨hlast, ?_, fun later => ?_⟩
  · rcases hkeeps none 1 _ hinside rfl with h | ⟨h, -⟩
    · exact h
    · exact absurd h (by decide)
  · obtain ⟨b, hb, hstart, hend⟩ := hloop
    exact ⟨b, hstart ▸ hclosed b hb (by rw [hend]; rfl) later, hend⟩

end Draft

end Lifeline
