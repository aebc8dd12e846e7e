import Lifeline.Proofs.Alignment
import Lifeline.Proofs.Columns
import Lifeline.Proofs.Headings
import Lifeline.Proofs.Links
import Lifeline.Proofs.Messages
import Lifeline.Proofs.Notes
/-!
# What is written for a draft

The text of a diagram is a script: lines, each with the statement that is read from it.
-/

namespace Lifeline

open History

/-! ## The timeline of a built diagram -/

/-- What the opening line of a block depends on, with the start that tells it apart. -/
def Block.face (b : Block) : Int × BlockKind × Option String × Option String := (b.startOrder, b.kind, b.label, b.color)

/-- Two blocks that differ at most in where they and the blocks inside them end. -/
def Block.Alike (b c : Block) : Prop := b.face = c.face ∧ b.inner.map Block.face = c.inner.map Block.face

theorem Block.Alike.blocks {b c : Block} (h : b.Alike c) (stop stop' : Option Int) :
    (Node.block { b with endOrder := stop }).blocks.map Block.face =
      (Node.block { c with endOrder := stop' }).blocks.map Block.face := by
  simp only [Node.blocks, Block.inner_end, List.map_cons, h.2]
  exact congrArg (· :: _) h.1

theorem Block.Alike.hang {b c : Block} (h : b.Alike c) {outer : Block} (ho : outer.Headed) (stop stop' : Option Int) :
    (outer.hang (.block { b with endOrder := stop })).Alike (outer.hang (.block { c with endOrder := stop' })) := by
  refine ⟨rfl, ?_⟩
  rw [Block.inner_hang ho, Block.inner_hang ho, List.map_append, List.map_append, h.blocks stop stop']

theorem Growth.faces_enclose {b c : Block} (h : b.Alike c) {outer : List Block} (ho : ∀ x ∈ outer, x.Headed)
    (stop stop' : Option Int) :
    (Growth.enclose stop b outer).blocks.map Block.face = (Growth.enclose stop' c outer).blocks.map Block.face := by
  induction outer generalizing b c with
  | nil => exact h.blocks stop stop'
  | cons x outer ih => exact ih (h.hang (ho x (by simp)) stop stop') fun y hy => ho y (List.mem_cons_of_mem x hy)

/-- Where open blocks end does not matter to the faces of the blocks. -/
theorem Growth.faces_nodes {g : Growth} (hg : ∀ b ∈ g.path, b.Headed) (stop stop' : Option Int) :
    (Node.allBlocks (g.nodes stop)).map Block.face = (Node.allBlocks (g.nodes stop')).map Block.face := by
  unfold Growth.nodes
  cases hp : g.path with
  | nil => rfl
  | cons inner outer =>
    have ho : ∀ x ∈ outer, x.Headed := fun x hx => hg x (by simp [hp, hx])
    simp only [Node.allBlocks_append, Node.allBlocks, List.append_nil, List.map_append]
    rw [Growth.faces_enclose ⟨rfl, rfl⟩ ho stop stop']

theorem Statement.fillIn_bare_congr {bs cs : List Block} (h : bs.map Block.face = cs.map Block.face) (item : Statement) :
    (item.fillIn bs).bare = (item.fillIn cs).bare := by
  cases item with
  | blockStart s =>
    have hfind : (bs.find? fun b => b.startOrder == s.order).map Block.face =
        (cs.find? fun b => b.startOrder == s.order).map Block.face := by
      have := congrArg (List.find? fun f : Int × BlockKind × Option String × Option String => f.1 == s.order) h
      rwa [List.find?_map, List.find?_map] at this
    simp only [Statement.fillIn, Statement.bare]
    cases hb : bs.find? fun b => b.startOrder == s.order with
    | none =>
      rw [hb, Option.map_none, eq_comm, Option.map_eq_none_iff] at hfind
      rw [hfind]
    | some b =>
      rw [hb, Option.map_some, eq_comm, Option.map_eq_some_iff] at hfind
      obtain ⟨c, hc, hf⟩ := hfind
      simp only [Block.face, Prod.mk.injEq] at hf
      simp [hc, hf]
  | _ => rfl

/-- The timeline of a draft is what happened, but for what has grown into its blocks. -/
theorem Draft.timeline_bare {d : Draft} (ha : d.Aligned) (stop : Option Int) :
    (d.timeline stop).map Statement.bare = d.past.reverse := by
  have hg := grown_ofPast ha.history
  have hw := hg.nodes.1
  have htime : (d.timeline none).map Statement.bare = d.past.reverse := by
    rw [Draft.timeline, ha.tree_eq none, Node.map_fillIn hw (Statement.nodup_opened ha.history.nodup_orders), hw]
  rw [← htime, Draft.timeline, Draft.timeline, ha.tree_eq stop, ha.tree_eq none, List.map_map, List.map_map]
  refine List.map_congr_left fun item _ => Statement.fillIn_bare_congr ?_ item
  exact Growth.faces_nodes (fun b hb => (hg.headed b hb).1) stop none

/-! ## Lines with what they say -/

/-- A line and the statement that is read from it. -/
abbrev Saying := Line × Statement

/-- The links of a participant. -/
def Participant.linkScript (p : Participant) (depth : Nat) : List Saying :=
  p.links.map fun l => (⟨depth, p.linkLine l⟩, .links { id := p.id, links := [l.read] })

namespace Diagram

variable {m : Diagram}

/-- A column. -/
def columnScript (m : Diagram) : Column → List Saying
  | .alone p => [(⟨1, p.declarationLine⟩, p.declaration false)]
  | .boxed _ box =>
    (⟨1, box.headingLine⟩, .boxStart box.readHeading) ::
      (m.drawn box).map (fun p => (⟨2, p.declarationLine⟩, p.declaration false)) ++ [(⟨1, endWord⟩, .blockEnd {})]

/-- The participant that a creation declares. -/
def created (m : Diagram) (id : String) : Participant := (m.participant? id).getD { id }

/-- A directive. -/
def directiveScript (m : Diagram) (depth : Nat) (x : Directive) : List Saying :=
  match x.kind with
  | .create =>
    (⟨depth, "create " ++ (m.created x.id).declarationLine⟩, (m.created x.id).declaration true) ::
      (m.created x.id).linkScript depth
  | kind => [(⟨depth, kind.word ++ " " ++ x.id⟩, .directive { kind, id := x.id })]

/-- An item of a timeline, where the given blocks are open before it. -/
def itemScript (m : Diagram) (opens : List OpenBlock) : Statement → List Saying
  | .message x => [(⟨opens.length + 1, x.line⟩, .message { x with order := -1 })]
  | .note n => [(⟨opens.length + 1, n.line.toOption.getD ""⟩, .note { n with order := -1 })]
  | .directive x => m.directiveScript (opens.length + 1) x
  | .blockStart s => [(⟨opens.length + 1, s.block.openingLine⟩, .blockStart { block := s.block.asShown })]
  | .blockBranch b =>
    [(⟨max opens.length 1, joinParts [some b.keyword, b.label]⟩, .blockBranch { keyword := b.keyword, label := b.label })]
  | .blockEnd _ => [(⟨opens.length, endWord⟩, .blockEnd {})]
  | _ => []

/-- A timeline, given latest first. -/
def pastScript (m : Diagram) : List Statement → List Saying
  | [] => []
  | item :: older => m.pastScript older ++ m.itemScript (openAfter older) item

/-- The ends of blocks that are open. -/
def closingScript : Nat → List Saying
  | 0 => []
  | depth + 1 => (⟨depth + 1, endWord⟩, .blockEnd {}) :: closingScript depth

/-- What comes before the timeline. -/
def headScript (m : Diagram) (layout : Layout) : List Saying :=
  (if m.autonumber then [(⟨1, autonumberWord⟩, .autonumber)] else []) ++ (m.allColumns layout).flatMap m.columnScript ++
    (m.participants.filter fun p => !m.creates p.id).flatMap fun p => p.linkScript 1

/-- A diagram whose timeline is given latest first. -/
def script (m : Diagram) (layout : Layout) (past : List Statement) : List Saying :=
  m.headScript layout ++ m.pastScript past ++ closingScript (openAfter past).length

/-! ## The lines are those of the script -/

theorem columnScript_lines (c : Column) : (m.columnScript c).map Prod.fst = m.columnText c := by
  cases c <;> simp [columnScript, columnText]

theorem linkScript_lines (p : Participant) (depth : Nat) :
    (p.linkScript depth).map Prod.fst = p.linkLines.map fun text => ⟨depth, text⟩ := by
  simp [Participant.linkScript, Participant.linkLines]

theorem directiveScript_lines (depth : Nat) (x : Directive) :
    (m.directiveScript depth x).map Prod.fst = m.directiveLines depth x := by
  unfold directiveScript directiveLines
  cases x.kind <;> simp [linkScript_lines, created]

theorem closingScript_lines (depth : Nat) : (closingScript depth).map Prod.fst = closingLines depth := by
  induction depth with
  | zero => rfl
  | succ depth ih => simp [closingScript, closingLines, ih]

theorem headScript_lines (h : m.WellBoxed) (layout : Layout) :
    (m.headScript layout).map Prod.fst =
      (if m.autonumber then [⟨1, autonumberWord⟩] else []) ++ m.declarationLines layout ++ m.linkLines := by
  have hcols : ((m.allColumns layout).flatMap m.columnScript).map Prod.fst = m.declarationLines layout := by
    rw [declarationLines_eq h, List.map_flatMap]
    simp only [columnScript_lines]
  have hlinks : ((m.participants.filter fun p => !m.creates p.id).flatMap fun p => p.linkScript 1).map Prod.fst =
      m.linkLines := by
    rw [List.map_flatMap]
    simp only [linkScript_lines]
    rfl
  unfold headScript
  rw [List.map_append, List.map_append, hcols, hlinks]
  cases m.autonumber <;> rfl

/-- A timeline is written as it is without what has grown into its blocks. -/
theorem timelineLines_bare (kinds : List BlockKind) (items : List Statement) :
    m.timelineLines kinds (items.map Statement.bare) = m.timelineLines kinds items := by
  induction items generalizing kinds with
  | nil => rfl
  | cons item items ih =>
    cases item with
    | blockStart s =>
      simp only [List.map_cons, Statement.bare, timelineLines, ih]
      rfl
    | blockEnd e => cases kinds <;> simp only [List.map_cons, Statement.bare, timelineLines, ih]
    | _ => simp only [List.map_cons, Statement.bare, timelineLines, ih]

/-- The script of items that follow a timeline. -/
def restScript (m : Diagram) (older : List Statement) : List Statement → List Saying
  | [] => closingScript (openAfter older).length
  | item :: rest => m.itemScript (openAfter older) item ++ m.restScript (item :: older) rest

theorem restScript_eq (m : Diagram) (older rest : List Statement) :
    m.pastScript older ++ m.restScript older rest =
      m.pastScript (rest.reverse ++ older) ++ closingScript (openAfter (rest.reverse ++ older)).length := by
  induction rest generalizing older with
  | nil => rfl
  | cons item rest ih =>
    have := ih (item :: older)
    simp only [pastScript, List.append_assoc] at this
    simp only [restScript, this, List.reverse_cons, List.append_assoc, List.singleton_append]

theorem history_of_append {newer older : List Statement} (h : History (newer ++ older)) : History older := by
  induction newer with
  | nil => exact h
  | cons item newer ih => exact ih h.2

theorem timelineLines_eq {older rest : List Statement} (h : History (rest.reverse ++ older))
    (hn : ∀ n, .note n ∈ rest → ∃ text, n.line = .ok text) :
    m.timelineLines ((openAfter older).map OpenBlock.kind) rest = .ok ((m.restScript older rest).map Prod.fst) := by
  induction rest generalizing older with
  | nil => simp [timelineLines, restScript, closingScript_lines]
  | cons item rest ih =>
    rw [List.reverse_cons, List.append_assoc, List.singleton_append] at h
    have hnext := ih h fun n hm => hn n (List.mem_cons_of_mem item hm)
    have hfollows : item.Follows older := (history_of_append h).1
    simp only [restScript, List.map_append]
    cases item with
    | message x =>
      simp only [timelineLines, List.length_map]
      rw [show openAfter (.message x :: older) = openAfter older from rfl] at hnext
      simp only [hnext]
      rfl
    | note n =>
      obtain ⟨text, ht⟩ := hn n (by simp)
      rw [show openAfter (.note n :: older) = openAfter older from rfl] at hnext
      simp only [timelineLines, List.length_map, ht, hnext, itemScript]
      rfl
    | directive x =>
      rw [show openAfter (.directive x :: older) = openAfter older from rfl] at hnext
      simp only [timelineLines, List.length_map, hnext, itemScript, directiveScript_lines]
      rfl
    | blockStart s =>
      rw [show openAfter (.blockStart s :: older) = ⟨s.block.kind, s.order, 1⟩ :: openAfter older from rfl,
        List.map_cons] at hnext
      simp only [timelineLines, List.length_map, hnext]
      rfl
    | blockBranch b =>
      obtain ⟨-, o, outer, ho, hk, -⟩ := hfollows
      simp only [openAfter, ho, List.map_cons] at hnext
      simp only [timelineLines, ho, List.map_cons, hnext, itemScript, branchWord, List.head?_cons, Option.bind_some, hk,
        Option.getD_some, List.length_cons, List.length_map]
      rfl
    | blockEnd e =>
      obtain ⟨-, o, outer, ho, -⟩ := hfollows
      simp only [openAfter, ho, List.tail_cons] at hnext
      simp only [timelineLines, ho, List.map_cons, hnext, itemScript, List.length_cons, List.length_map]
      rfl
    | _ => exact hfollows.elim

/-- The lines of a diagram are those of its script. -/
theorem lines_eq (h : m.WellBoxed) (layout : Layout) {past : List Statement} (hp : History past)
    (ht : m.timeline.map Statement.bare = past.reverse) (hn : ∀ n, .note n ∈ past → ∃ text, n.line = .ok text) :
    m.lines layout = .ok (⟨0, headerWord⟩ :: (m.script layout past).map Prod.fst) := by
  have hp' : History (past.reverse.reverse ++ []) := by simpa using hp
  have hl : m.timelineLines [] past.reverse = .ok ((m.restScript [] past.reverse).map Prod.fst) :=
    timelineLines_eq hp' (by simpa using hn)
  have hr := m.restScript_eq [] past.reverse
  simp only [pastScript, List.nil_append, List.append_nil, List.reverse_reverse] at hr
  rw [hr, ← ht, timelineLines_bare] at hl
  unfold lines
  rw [hl]
  simp only [Except.map, script, List.map_append, headScript_lines h, List.append_assoc, List.cons_append]

end Diagram

end Lifeline
