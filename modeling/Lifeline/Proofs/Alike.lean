import Mathlib.Data.List.Find
import Lifeline.Document.Format
import Lifeline.Proofs.Built
/-!
# Diagrams that are written alike

The text of a diagram does not show everything about it: two diagrams are written alike if
their participants have the same lines in the same order, and so have their boxes and
timelines. Blocks that are left open are written as if they were closed.
-/

namespace Lifeline

open History Text

/-- A participant that has the same lines as another. -/
structure Participant.Alike (p q : Participant) : Prop where
  id : q.id = p.id
  declaration : q.declarationLine = p.declarationLine
  links : q.linkLines = p.linkLines

/-- Whether anything but ends of blocks comes first in a timeline, and has a place there. -/
def begins (items : List Statement) : Bool := (items.find? fun item => !item.isBlockEnd).any Statement.isPlaced

namespace Diagram

variable {m m' : Diagram} {layout : Layout}

/-- Diagrams that have the same lines, and reach their first line alike. -/
structure Alike (layout : Layout) (m m' : Diagram) : Prop where
  lines : m'.lines layout = m.lines layout
  starts : m'.startsIndented layout = m.startsIndented layout

theorem Alike.writeWithin (h : Alike layout m m') : m'.writeWithin layout = m.writeWithin layout := by
  unfold Diagram.writeWithin write
  rw [h.lines, h.starts]

theorem Alike.of_parts (hnumber : m'.autonumber = m.autonumber)
    (hdecl : m'.declarationLines layout = m.declarationLines layout) (hlinks : m'.linkLines = m.linkLines)
    (htimeline : m'.timelineLines [] m'.timeline = m.timelineLines [] m.timeline)
    (hbegins : begins m'.timeline = begins m.timeline) : Alike layout m m' where
  lines := by
    unfold Diagram.lines
    rw [hnumber, hdecl, hlinks, htimeline]
  starts := by
    unfold begins at hbegins
    unfold startsIndented
    rw [hnumber, hdecl, hlinks, hbegins]

/-! ## Timelines -/

theorem directiveLines_congr {f : Participant → Participant} {x : Directive}
    (h : m'.participant? x.id = (m.participant? x.id).map f) (hf : ∀ p ∈ m.participants, p.Alike (f p)) (depth : Nat) :
    m'.directiveLines depth x = m.directiveLines depth x := by
  unfold directiveLines
  rw [h]
  cases hp : m.participant? x.id with
  | none => rfl
  | some p =>
    have := hf p (List.mem_of_find?_eq_some hp)
    simp only [Option.map_some, Option.getD_some, this.declaration, this.links]

theorem timelineLines_congr (h : ∀ depth x, m'.directiveLines depth x = m.directiveLines depth x)
    (kinds : List BlockKind) (items : List Statement) : m'.timelineLines kinds items = m.timelineLines kinds items := by
  induction items generalizing kinds with
  | nil => rfl
  | cons item items ih =>
    cases item with
    | blockEnd e => cases kinds <;> simp only [timelineLines, ih]
    | _ => simp only [timelineLines, ih, h]

/-- Ends of blocks at the end of a timeline are written in any case. -/
theorem timelineLines_ends {ends : List Statement} (h : ∀ e ∈ ends, e.isBlockEnd = true) (kinds : List BlockKind)
    (items : List Statement) : m.timelineLines kinds (items ++ ends) = m.timelineLines kinds items := by
  -- Behind the items only ends are left, which are written for what is still open in any case.
  induction items generalizing kinds with
  | nil =>
    induction ends generalizing kinds with
    | nil => rfl
    | cons e ends ih =>
      have hrest := ih fun x hx => h x (List.mem_cons_of_mem e hx)
      have he := h e (by simp)
      cases e with
      | blockEnd x =>
        cases kinds with
        | nil => exact hrest []
        | cons kind outer =>
          simp only [List.nil_append] at hrest
          simp only [List.nil_append, timelineLines, hrest]
          rfl
      | _ => cases he
  | cons item items ih =>
    cases item with
    | blockEnd e => cases kinds <;> simp only [List.cons_append, timelineLines, ih]
    | _ => simp only [List.cons_append, timelineLines, ih]

theorem timelineLines_reread (kinds : List BlockKind) (items : List Statement) :
    m.timelineLines kinds (items.map reread) = m.timelineLines kinds items := by
  induction items generalizing kinds with
  | nil => rfl
  | cons item items ih =>
    cases item with
    | blockStart s =>
      have hshown : s.block.asShown.openingLine = s.block.openingLine := by
        cases hk : s.block.kind <;> simp [Block.openingLine, Block.asShown, hk]
      have hkind : s.block.asShown.kind = s.block.kind := rfl
      simp only [List.map_cons, reread, timelineLines, ih, hshown, hkind]
    | blockEnd e => cases kinds <;> simp only [List.map_cons, reread, timelineLines, ih]
    | _ => simp only [List.map_cons, reread, timelineLines, ih]

/-- A change of items that leaves ends of blocks as they are, and places as well. -/
theorem begins_map {f : Statement → Statement} (hf : ∀ item, (f item).isBlockEnd = item.isBlockEnd)
    (hp : ∀ item, (f item).isPlaced = item.isPlaced) (items : List Statement) : begins (items.map f) = begins items := by
  unfold begins
  rw [List.find?_map, Option.any_map]
  have h1 : ((fun item => !item.isBlockEnd) ∘ f) = fun item => !item.isBlockEnd := funext fun item => by simp [hf]
  simp only [h1, hp]

theorem begins_bare (items : List Statement) : begins (items.map Statement.bare) = begins items :=
  begins_map (fun item => by cases item <;> rfl) (fun item => by cases item <;> rfl) items

theorem begins_ends {ends : List Statement} (h : ∀ e ∈ ends, e.isBlockEnd = true) (items : List Statement) :
    begins (items ++ ends) = begins items := by
  have hends : (ends.find? fun item => !item.isBlockEnd) = none := by simpa using h
  unfold begins
  rw [List.find?_append, hends, Option.or_none]

/-! ## Copies -/

/-- A diagram that differs from another only in what no line shows of its participants. -/
structure Copies (f : Participant → Participant) (m m' : Diagram) : Prop where
  participants : m'.participants = m.participants.map f
  alike : ∀ p ∈ m.participants, p.Alike (f p)
  explicit : ∀ p ∈ m.participants, (f p).explicit = p.explicit
  boxes : m'.boxes = m.boxes
  creates : ∀ id, m'.createdIds.contains id = m.createdIds.contains id
  autonumber : m'.autonumber = m.autonumber

namespace Copies

variable {f : Participant → Participant}

theorem symm (h : Copies id m m') : Copies id m' m where
  participants := by rw [h.participants, List.map_id, List.map_id]
  alike := fun p _ => ⟨rfl, rfl, rfl⟩
  explicit := fun _ _ => rfl
  boxes := h.boxes.symm
  creates := fun id => (h.creates id).symm
  autonumber := h.autonumber.symm

theorem participant? (h : Copies f m m') (id : String) : m'.participant? id = (m.participant? id).map f := by
  unfold Diagram.participant?
  rw [h.participants, List.find?_map]
  congr 1
  exact List.find?_congr fun p hp => by simp [(h.alike p hp).id]

theorem memberLines (h : Copies f m m') (ids declared : List String) :
    m'.memberLines ids declared = m.memberLines ids declared := by
  induction ids generalizing declared with
  | nil => rfl
  | cons id ids ih =>
    unfold Diagram.memberLines
    rw [h.participant?]
    cases hp : m.participant? id with
    | none => exact ih declared
    | some p =>
      simp only [Option.map_some, h.creates, ih, (h.alike p (List.mem_of_find?_eq_some hp)).declaration]

theorem boxLines (h : Copies f m m') (box : Box) (declared : List String) :
    m'.boxLines box declared = m.boxLines box declared := by
  simp only [Diagram.boxLines, h.memberLines]

theorem columnLines (h : Copies f m m') {ps : List Participant} (hps : ∀ p ∈ ps, p ∈ m.participants) (declared : List String)
    (drawn : List Nat) : m'.columnLines layout (ps.map f) declared drawn = m.columnLines layout ps declared drawn := by
  have hbox : ∀ id, m'.boxOf? id = m.boxOf? id := fun id => by unfold boxOf?; rw [h.boxes]
  induction ps generalizing declared drawn with
  | nil => rfl
  | cons p ps ih =>
    have ih := fun declared drawn => ih (fun q hq => hps q (List.mem_cons_of_mem p hq)) declared drawn
    have hp := hps p (by simp)
    rw [List.map_cons]
    unfold Diagram.columnLines
    simp only [(h.alike p hp).id, (h.alike p hp).declaration, h.explicit p hp, h.creates, hbox, h.boxLines, ih]

theorem leftoverLines (h : Copies f m m') (drawn : List Nat) (boxes : List (Box × Nat)) (declared : List String) :
    m'.leftoverLines drawn boxes declared = m.leftoverLines drawn boxes declared := by
  induction boxes generalizing declared with
  | nil => rfl
  | cons e boxes ih =>
    obtain ⟨box, place⟩ := e
    simp only [Diagram.leftoverLines, h.boxLines, ih]

theorem declarationLines (h : Copies f m m') : m'.declarationLines layout = m.declarationLines layout := by
  unfold Diagram.declarationLines
  rw [h.participants, h.columnLines fun _ hp => hp, h.boxes]
  simp only [h.leftoverLines]

theorem linkLines (h : Copies f m m') : m'.linkLines = m.linkLines := by
  unfold Diagram.linkLines
  rw [h.participants, List.filter_map, List.flatMap_map]
  have hfilter : (m.participants.filter ((fun p => !m'.createdIds.contains p.id) ∘ f)) =
      m.participants.filter fun p => !m.createdIds.contains p.id :=
    List.filter_congr fun p hp => by simp only [Function.comp_apply, (h.alike p hp).id, h.creates]
  rw [hfilter]
  exact List.flatMap_congr fun p hp => by rw [(h.alike p (List.mem_filter.1 hp).1).links]

theorem timelineLines (h : Copies f m m') (kinds : List BlockKind) (items : List Statement) :
    m'.timelineLines kinds items = m.timelineLines kinds items :=
  timelineLines_congr (fun depth x => directiveLines_congr (h.participant? x.id) h.alike depth) kinds items

theorem isAlike (h : Copies f m m') (htimeline : m.timelineLines [] m'.timeline = m.timelineLines [] m.timeline)
    (hbegins : begins m'.timeline = begins m.timeline) : Diagram.Alike layout m m' :=
  .of_parts h.autonumber h.declarationLines h.linkLines ((h.timelineLines _ _).trans htimeline) hbegins

/-- Ends of blocks behind a timeline make no difference. -/
theorem alike_ends (h : Copies f m m') {items ends : List Statement} (hends : ∀ e ∈ ends, e.isBlockEnd = true)
    (ht : m.timeline.map Statement.bare = items) (ht' : m'.timeline.map Statement.bare = items ++ ends) :
    Diagram.Alike layout m m' := by
  refine h.isAlike ?_ ?_
  · rw [← timelineLines_bare, ht', timelineLines_ends hends, ← ht, timelineLines_bare]
  · rw [← begins_bare, ht', begins_ends hends, ← ht, begins_bare]

end Copies

/-! ## Diagrams without halves -/

theorem directives_standing (stand : Half → Char) (m : Diagram) : (m.standing stand).directives = m.directives := by
  unfold directives standing
  rw [List.filterMap_map]
  exact List.filterMap_congr fun item _ => by cases item <;> rfl

theorem Copies.standing (h : Copies id m m') (stand : Half → Char) : Copies id (m.standing stand) (m'.standing stand) where
  participants := by simp [Diagram.standing, h.participants]
  alike := fun _ _ => ⟨rfl, rfl, rfl⟩
  explicit := fun _ _ => rfl
  boxes := h.boxes
  creates := fun id => by
    have := h.creates id
    unfold createdIds at this ⊢
    rwa [directives_standing, directives_standing]
  autonumber := h.autonumber

/-- Where every item has a place, nothing stands in for a half. -/
theorem timeline_standing (stand : Half → Char) (h : ∀ item ∈ m.timeline, item.isPlaced = true) :
    (m.standing stand).timeline = m.timeline := by
  refine (List.map_congr_left fun item hi => ?_).trans (List.map_id _)
  cases item with
  | links l => cases h _ hi
  | _ => rfl

theorem linkLines_standing (p : Participant) : (p.standing Half.replaced).linkLines = p.linkLines := by
  unfold Participant.linkLines Participant.standing
  rw [List.map_map]
  refine List.map_congr_left fun l _ => ?_
  simp only [Function.comp_apply, Participant.linkLine, Link.standing, text_standing]

/-- Halves are written as what replaces them. -/
theorem alike_standing (m : Diagram) : Alike layout m (m.standing Half.replaced) := by
  have hitems : ∀ kinds items, m.timelineLines kinds (items.map (Statement.standing Half.replaced)) =
      m.timelineLines kinds items := by
    intro kinds items
    induction items generalizing kinds with
    | nil => rfl
    | cons item items ih =>
      cases item with
      | blockEnd e => cases kinds <;> simp only [List.map_cons, Statement.standing, timelineLines, ih]
      | links l => rfl
      | _ => simp only [List.map_cons, Statement.standing, timelineLines, ih]
  have hcopies : Copies (Participant.standing Half.replaced) m (m.standing Half.replaced) :=
    { participants := rfl
      alike := fun p _ => ⟨rfl, rfl, linkLines_standing p⟩
      explicit := fun _ _ => rfl
      boxes := rfl
      creates := fun id => by unfold createdIds; rw [directives_standing]
      autonumber := rfl }
  exact hcopies.isAlike (hitems [] m.timeline)
    (begins_map (fun item => by cases item <;> rfl) (fun item => by cases item <;> rfl) m.timeline)

end Diagram

/-! ## Blocks that are left open -/

namespace Draft

/-- A draft in which everything is closed, and that differs from another only in that. -/
structure Completes (d d' : Draft) (ends : List Statement) : Prop where
  onlyEnds : ∀ e ∈ ends, e.isBlockEnd = true
  past : d'.past = ends ++ d.past
  frames : d'.frames = []
  roster : d'.roster = d.roster
  boxes : d'.boxes = d.boxes
  autonumber : d'.autonumber = d.autonumber
  awaitingCreate : d'.awaitingCreate = d.awaitingCreate
  awaitingDestroy : d'.awaitingDestroy = d.awaitingDestroy

theorem createsId_blockEnd {item : Statement} (h : item.isBlockEnd = true) (id : String) : item.createsId id = false := by
  cases item <;> first | rfl | cases h

/-- What is open can be closed. -/
theorem exists_completes (d : Draft) : ∃ d' ends n, Steps d (List.replicate n .close) d' ∧ Completes d d' ends := by
  generalize hf : d.frames = frames
  -- Frame by frame from the innermost: a box is closed silently, a block by an end.
  induction frames generalizing d with
  | nil => exact ⟨d, [], 0, .nil, by simp, rfl, hf, rfl, rfl, rfl, rfl, rfl⟩
  | cons frame outer ih =>
    cases hr : frame.region with
    | box =>
      obtain ⟨d', ends, n, hs, hc⟩ := ih { d with frames := outer } rfl
      exact ⟨d', ends, n + 1, .cons (.closeBox hf hr) hs, hc.onlyEnds, hc.past, hc.frames, hc.roster, hc.boxes, hc.autonumber,
        hc.awaitingCreate, hc.awaitingDestroy⟩
    | block kind =>
      let e : Statement := .blockEnd { order := d.nextOrder, blockOrder := frame.content }
      let after : Draft :=
        { d with past := e :: d.past, statements := d.changed frame.content (Block.close · d.nextOrder), frames := outer }
      obtain ⟨d', ends, n, hs, hc⟩ := ih after rfl
      refine ⟨d', ends ++ [e], n + 1, .cons (.closeBlock hf hr) hs, fun x hx => ?_, ?_, hc.frames, hc.roster, hc.boxes,
        hc.autonumber, hc.awaitingCreate, hc.awaitingDestroy⟩
      · rcases List.mem_append.1 hx with hx | hx
        · exact hc.onlyEnds x hx
        · obtain rfl := List.mem_singleton.1 hx
          rfl
      · rw [hc.past]
        simp [after]

namespace Completes

variable {d d' : Draft} {ends : List Statement} {layout : Layout} {m : Diagram}

theorem copies (h : Completes d d' ends) (ha : d.Aligned) (ha' : d'.Aligned)
    (hm : m = { d.build with diagnostics := m.diagnostics }) : Diagram.Copies id m d'.build := by
  have htimeline := build_timeline_of_eq ha hm
  refine { participants := ?_, alike := fun p _ => ⟨rfl, rfl, rfl⟩, explicit := fun _ _ => rfl, boxes := ?_, creates := fun id => ?_, autonumber := ?_ }
  · rw [hm, List.map_id]
    simp only [build, h.roster, h.awaitingCreate, h.awaitingDestroy]
  · rw [hm]
    exact h.boxes
  · have hc := Diagram.creates_eq htimeline id
    have hc' := Diagram.creates_eq (build_timeline ha') id
    have hends : ends.any (Statement.createsId id) = false := List.any_eq_false.2 fun e he => by
      simp [createsId_blockEnd (h.onlyEnds e he)]
    rw [h.past, List.any_append, hends, Bool.false_or] at hc'
    exact hc'.trans hc.symm
  · rw [hm]
    exact h.autonumber

/-- Blocks that are left open are written as if they were closed. -/
theorem alike (h : Completes d d' ends) (ha : d.Aligned) (ha' : d'.Aligned)
    (hm : m = { d.build with diagnostics := m.diagnostics }) : Diagram.Alike layout m d'.build := by
  have htimeline := build_timeline_of_eq ha hm
  have hends : ∀ e ∈ ends.reverse, e.isBlockEnd = true := fun e he => h.onlyEnds e (List.mem_reverse.1 he)
  refine (h.copies ha ha' hm).alike_ends hends htimeline ?_
  rw [build_timeline ha', h.past, List.reverse_append]

end Completes

end Draft

end Lifeline
