import Lifeline.Proofs.Reading
/-!
# Diagrams that are read back

If a line can hold each part of a diagram, the text of the diagram is read without a
report, into a draft that the events of its script lead to.
-/

namespace Lifeline

open History

/-- What the line of an item can hold. -/
def Statement.Legible : Statement → Prop
  | .message x => x.Legible
  | .note n => n.Legible
  | .directive x => IsId x.id.toList
  | .blockStart s => ∀ l ∈ s.block.shown, IsLabel l.toList
  | .blockBranch b => ∀ l ∈ b.label, IsLabel l.toList
  | _ => True

/-- What the lines of a participant can hold. -/
structure Participant.Legible (p : Participant) : Prop extends p.Declarable where
  links : ∀ l ∈ p.links, l.Legible

/-- What the text of a diagram can hold, given its timeline latest first. -/
structure Diagram.Legible (m : Diagram) (past : List Statement) : Prop where
  boxed : m.WellBoxed
  history : History past
  timeline : m.timeline.map Statement.bare = past.reverse
  known : ∀ x, .directive x ∈ past → x.kind = .create → x.id ∈ m.participantIds
  items : ∀ item ∈ past, item.Legible
  participants : ∀ p ∈ m.participants, p.Legible
  boxes : ∀ b ∈ m.boxes, b.Legible

/-- A line is read as it says, and says the same to every draft. -/
def IsRead (e : Saying) : Prop := Reads e.1.text e.2 ∧ e.2.IsFixed

namespace Diagram

variable {m : Diagram} {past : List Statement}

/-! ## Every line is read -/

theorem created_mem {id : String} (h : id ∈ m.participantIds) : m.created id ∈ m.participants ∧ (m.created id).id = id := by
  obtain ⟨p, hp, hf, hid⟩ := participant?_isSome h
  simp [created, hf, hp, hid]

/-- A column is a participant of the diagram, or one of its boxes. -/
theorem mem_allColumns (h : m.WellBoxed) {layout : Layout} {c : Column} (hc : c ∈ m.allColumns layout) :
    (∃ place box, c = .boxed place box ∧ m.boxes[place]? = some box) ∨ ∃ p ∈ m.participants, c = .alone p := by
  rcases List.mem_append.1 hc with hc | hc
  · rcases mem_columns h layout hc with hb | ⟨p, hp, he, -⟩
    · exact .inl hb
    · exact .inr ⟨p, hp, he⟩
  · obtain ⟨⟨box, place⟩, hm, rfl⟩ := List.mem_map.1 hc
    exact .inl ⟨place, box, rfl, List.mem_zipIdx_iff_getElem?.1 (List.mem_filter.1 hm).1⟩

theorem linkScript_isRead {p : Participant} (h : p.Legible) (depth : Nat) : ∀ e ∈ p.linkScript depth, IsRead e := by
  intro e he
  obtain ⟨l, hl, rfl⟩ := List.mem_map.1 he
  exact ⟨reads_link h.id (h.links l hl), trivial⟩

theorem columnScript_isRead (h : m.Legible past) {layout : Layout} {c : Column} (hc : c ∈ m.allColumns layout) :
    ∀ e ∈ m.columnScript c, IsRead e := by
  intro e he
  rcases mem_allColumns h.boxed hc with ⟨place, box, rfl, hb⟩ | ⟨p, hp, rfl⟩
  · simp only [columnScript, List.cons_append, List.mem_cons, List.mem_append, List.mem_map, List.not_mem_nil,
      or_false] at he
    rcases he with rfl | ⟨p, hp, rfl⟩ | rfl
    · exact ⟨(h.boxes box (List.mem_of_getElem? hb)).reads, trivial⟩
    · have := List.mem_of_find?_eq_some (mem_drawn.1 hp).2.2
      exact ⟨(h.participants p this).reads, trivial⟩
    · exact ⟨reads_end, trivial⟩
  · obtain rfl := List.mem_singleton.1 he
    exact ⟨(h.participants p hp).reads, trivial⟩

theorem itemScript_isRead (h : m.Legible past) {item : Statement} (hi : item ∈ past) {older : List Statement}
    (hf : item.Follows older) : ∀ e ∈ m.itemScript (openAfter older) item, IsRead e := by
  intro e he
  have hl := h.items item hi
  cases item with
  | message x =>
    obtain rfl := List.mem_singleton.1 he
    exact ⟨hl.reads, trivial⟩
  | note n =>
    obtain rfl := List.mem_singleton.1 he
    obtain ⟨text, ht, hr⟩ := hl.reads
    exact ⟨by simpa [ht, Except.toOption] using hr, trivial⟩
  | directive x =>
    simp only [itemScript, directiveScript] at he
    cases hk : x.kind with
    | create =>
      obtain ⟨hp, -⟩ := created_mem (h.known x hi hk)
      simp only [hk, List.mem_cons] at he
      rcases he with rfl | he
      · exact ⟨(h.participants _ hp).reads_create, trivial⟩
      · exact linkScript_isRead (h.participants _ hp) _ e he
    | _ =>
      simp only [hk, List.mem_cons, List.not_mem_nil, or_false] at he
      subst he
      exact ⟨reads_directive (by simp) hl, fun hk' => by cases hk'⟩
  | blockStart s =>
    obtain rfl := List.mem_singleton.1 he
    exact ⟨reads_opening hl, trivial⟩
  | blockBranch b =>
    obtain rfl := List.mem_singleton.1 he
    obtain ⟨-, o, outer, -, hk, -⟩ := hf
    exact ⟨reads_branch hk hl, trivial⟩
  | blockEnd e =>
    obtain rfl := List.mem_singleton.1 he
    exact ⟨reads_end, trivial⟩
  | _ => cases he

theorem pastScript_isRead (h : m.Legible past) {older : List Statement} (ho : older <:+ past) (hh : History older) :
    ∀ e ∈ m.pastScript older, IsRead e := by
  induction older with
  | nil => simp [pastScript]
  | cons item older ih =>
    intro e he
    rcases List.mem_append.1 he with he | he
    · exact ih ((List.suffix_cons item older).trans ho) hh.2 e he
    · exact itemScript_isRead h (ho.subset (by simp)) hh.1 e he

theorem closingScript_isRead (depth : Nat) : ∀ e ∈ closingScript depth, IsRead e := by
  induction depth with
  | zero => simp [closingScript]
  | succ depth ih =>
    intro e he
    rcases List.mem_cons.1 he with rfl | he
    · exact ⟨reads_end, trivial⟩
    · exact ih e he

theorem script_isRead (h : m.Legible past) (layout : Layout) : ∀ e ∈ m.script layout past, IsRead e := by
  intro e he
  simp only [script, headScript, List.mem_append, List.mem_flatMap, List.mem_filter] at he
  rcases he with ((((he | ⟨c, hc, he⟩) | ⟨p, ⟨hp, -⟩, he⟩) | he) | he)
  · split at he
    · obtain rfl := List.mem_singleton.1 he
      exact ⟨reads_autonumber, trivial⟩
    · cases he
  · exact columnScript_isRead h hc e he
  · exact linkScript_isRead (h.participants p hp) 1 e he
  · exact pastScript_isRead h (List.suffix_refl past) h.history e he
  · exact closingScript_isRead _ e he

/-! ## The lines are nested -/

/-- Statements that leave the open regions as they are. -/
theorem enterAll_leaves {xs : List Statement} (h : ∀ x ∈ xs, x.IsLeaf) (regions : List Region) :
    Region.enterAll regions xs = some regions := by
  induction xs with
  | nil => rfl
  | cons x xs ih =>
    simp only [Region.enterAll, Region.enter_leaf (h x (by simp)), Option.bind_some]
    exact ih fun y hy => h y (List.mem_cons_of_mem x hy)

theorem enterAll_flatMap {α : Type} {f : α → List Statement} {xs : List α} {regions : List Region}
    (h : ∀ x ∈ xs, Region.enterAll regions (f x) = some regions) :
    Region.enterAll regions (xs.flatMap f) = some regions := by
  induction xs with
  | nil => rfl
  | cons x xs ih =>
    rw [List.flatMap_cons, Region.enterAll_append, h x (by simp), Option.bind_some]
    exact ih fun y hy => h y (List.mem_cons_of_mem x hy)

theorem enterAll_linkScript (p : Participant) (depth : Nat) (regions : List Region) :
    Region.enterAll regions ((p.linkScript depth).map Prod.snd) = some regions := by
  refine enterAll_leaves (fun x hx => ?_) regions
  obtain ⟨e, he, rfl⟩ := List.mem_map.1 hx
  obtain ⟨l, -, rfl⟩ := List.mem_map.1 he
  trivial

theorem enterAll_columnScript (c : Column) (regions : List Region) :
    Region.enterAll regions ((m.columnScript c).map Prod.snd) = some regions := by
  cases c with
  | alone p => rfl
  | boxed place box =>
    have hl : ∀ x ∈ ((m.drawn box).map fun p => ((⟨2, p.declarationLine⟩ : Line), p.declaration false)).map Prod.snd,
        x.IsLeaf := by
      intro x hx
      simp only [List.map_map, List.mem_map] at hx
      obtain ⟨p, -, rfl⟩ := hx
      trivial
    simp only [columnScript, List.cons_append, List.map_cons, List.map_append, Region.enterAll, Region.enter,
      Option.bind_some, Region.enterAll_append, enterAll_leaves hl]
    rfl

/-- The open regions of a timeline. -/
def openRegions (past : List Statement) : List Region := (openAfter past).map fun o => .block o.kind

theorem enterAll_itemScript {item : Statement} {older : List Statement} (hf : item.Follows older) :
    Region.enterAll (openRegions older) ((m.itemScript (openAfter older) item).map Prod.snd) =
      some (openRegions (item :: older)) := by
  cases item with
  | directive x =>
    simp only [itemScript, directiveScript]
    cases x.kind with
    | create =>
      simp only [List.map_cons, Region.enterAll, Participant.declaration, Region.enter, Option.bind_some]
      exact enterAll_linkScript _ _ _
    | _ => rfl
  | blockBranch b =>
    obtain ⟨-, o, outer, ho, hk, -⟩ := hf
    simp [itemScript, openRegions, Region.enterAll, Region.enter, openAfter, ho, hk]
  | blockEnd e =>
    obtain ⟨-, o, outer, ho, -⟩ := hf
    simp [itemScript, openRegions, Region.enterAll, Region.enter, openAfter, ho]
  | message x => rfl
  | note n => rfl
  | blockStart s => rfl
  | _ => exact hf.elim

theorem enterAll_pastScript (h : History past) :
    Region.enterAll [] ((m.pastScript past).map Prod.snd) = some (openRegions past) := by
  induction past with
  | nil => rfl
  | cons item older ih =>
    rw [pastScript, List.map_append, Region.enterAll_append, ih h.2, Option.bind_some]
    exact enterAll_itemScript h.1

theorem enterAll_closingScript (regions : List Region) :
    Region.enterAll regions ((closingScript regions.length).map Prod.snd) = some [] := by
  induction regions with
  | nil => rfl
  | cons region regions ih =>
    simp only [List.length_cons, closingScript, List.map_cons, Region.enterAll, Region.enter, Option.bind_some]
    exact ih

theorem enterAll_headScript (layout : Layout) :
    Region.enterAll [] ((m.headScript layout).map Prod.snd) = some [] := by
  have hnumber : Region.enterAll [] ((if m.autonumber then [((⟨1, autonumberWord⟩ : Line), Statement.autonumber)]
      else []).map Prod.snd) = some [] := by
    split <;> rfl
  simp only [headScript, List.map_append, Region.enterAll_append, hnumber, Option.bind_some, List.map_flatMap]
  rw [enterAll_flatMap fun c _ => enterAll_columnScript c [], Option.bind_some]
  exact enterAll_flatMap fun p _ => enterAll_linkScript p 1 []

theorem enterAll_script (h : History past) (layout : Layout) :
    Region.enterAll [] ((m.script layout past).map Prod.snd) = some [] := by
  have hlen : (openAfter past).length = (openRegions past).length := by simp [openRegions]
  simp only [script, List.map_append, Region.enterAll_append, enterAll_headScript, Option.bind_some,
    enterAll_pastScript h]
  rw [hlen]
  exact enterAll_closingScript _

/-! ## The text is read -/

/-- The events of a script. -/
def scriptEvents (script : List Saying) : List Event := script.flatMap fun e => e.2.draftEvents

theorem Legible.note_line (h : m.Legible past) : ∀ n, .note n ∈ past → ∃ text, n.line = .ok text := by
  intro n hn
  obtain ⟨text, ht, -⟩ := (h.items _ hn : n.Legible).reads
  exact ⟨text, ht⟩

/-- The text of a diagram that lines can hold is written, and read into a draft that the
events of its script lead to. -/
theorem Legible.write_read (h : m.Legible past) (layout : Layout) : ∃ text r,
    m.write layout = .ok text ∧ Diagram.read text false = .ok r.build ∧
      Draft.Steps {} (scriptEvents (m.script layout past)) r ∧ r.frames = [] := by
  have hlines := lines_eq h.boxed layout h.history h.timeline h.note_line
  have hread := script_isRead h layout
  obtain ⟨r, hs, hf, hr⟩ := read_script layout (fun e he => (hread e he).1) (fun e he => (hread e he).2)
    (enterAll_script h.history layout)
  exact ⟨_, r, by rw [write, hlines]; rfl, hr, hs, hf⟩

end Diagram

end Lifeline
