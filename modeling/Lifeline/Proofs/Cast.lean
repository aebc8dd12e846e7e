import Lifeline.Proofs.Drawing
import Lifeline.Proofs.Named
/-!
# What the events of a script leave of participants

Every participant of a diagram is named in its script, declared there as it is and given
its links once. So the script leads to the participants of the diagram, though in another
order.
-/

namespace Lifeline

open History

theorem Statement.names_of_createsId {id : String} {item : Statement} (h : item.createsId id = true) : id ∈ item.names := by
  cases item with
  | directive x =>
    simp only [createsId, Bool.and_eq_true, beq_iff_eq] at h
    simp [names, h.2]
  | _ => cases h

/-- Whether an event declares the participant of an id. -/
def Event.declares (id : String) (e : Event) : Bool := (e.declaration? id).isSome

/-- What is known after events that all declare the same. -/
theorem Card.foldl_after {id : String} {kind : ParticipantKind} {label : Option String} {es : List Event}
    (h : ∀ e ∈ es, ∀ y ∈ e.declaration? id, y = (kind, label)) (c : Card) :
    es.foldl (Card.after id) c =
      { kind := if es.any (Event.declares id) then kind else c.kind
        label := if es.any (Event.declares id) then label.or c.label else c.label
        explicit := c.explicit || es.any (Event.declares id)
        links := c.links ++ es.filterMap (Event.link? id) } := by
  induction es generalizing c with
  | nil => simp
  | cons e es ih =>
    rw [List.foldl_cons, ih fun e' he' => h e' (List.mem_cons_of_mem e he')]
    cases hd : e.declaration? id with
    | some y =>
      obtain rfl := h e (by simp) y hd
      have hl : e.link? id = none := by cases e <;> first | rfl | cases hd
      cases ha : es.any (Event.declares id) <;> cases label <;>
        simp [Card.after, Card.declare, Event.declares, hd, hl, ha]
    | none =>
      cases hl : e.link? id <;> simp [Card.after, Event.declares, hd, hl]

namespace Diagram

variable {m : Diagram} {past : List Statement}

/-! ## The events of items -/

/-- The events of an item. -/
def itemEvents (m : Diagram) (item : Statement) : List Event := scriptEvents (m.itemScript [] item)

theorem itemEvents_create {x : Directive} (hk : x.kind = .create) : m.itemEvents (.directive x) =
    .create (m.created x.id).id (m.created x.id).kind (m.created x.id).label ::
      ((m.created x.id).links.map Link.read).map (.link (m.created x.id).id) :=
  scriptEvents_create hk _

/-- The events of an item do not depend on its depth. -/
theorem scriptEvents_itemScript (opens : List OpenBlock) (item : Statement) :
    scriptEvents (m.itemScript opens item) = m.itemEvents item := by
  cases item with
  | directive x =>
    cases hk : x.kind with
    | create => rw [itemEvents_create hk, itemScript, scriptEvents_create hk]
    | _ => simp only [itemEvents, itemScript, directiveScript, hk]; rfl
  | _ => rfl

theorem scriptEvents_pastScript (past : List Statement) :
    scriptEvents (m.pastScript past) = past.reverse.flatMap m.itemEvents := by
  induction past with
  | nil => rfl
  | cons item older ih =>
    rw [pastScript, scriptEvents_append, ih, scriptEvents_itemScript, List.reverse_cons, List.flatMap_append,
      List.flatMap_singleton]

/-- An item that creates no participant but those of the diagram. -/
def Known (m : Diagram) (item : Statement) : Prop :=
  ∀ x, item = .directive x → x.kind = .create → x.id ∈ m.participantIds

theorem names_itemEvents {item : Statement} (hk : m.Known item) (id : String) :
    id ∈ (m.itemEvents item).flatMap Event.names ↔ id ∈ item.names := by
  cases item with
  | directive x =>
    cases hkind : x.kind with
    | create =>
      have hid := (created_mem (hk x rfl hkind)).2
      simp only [itemEvents_create hkind, hid, List.flatMap_cons, List.mem_append, List.flatMap_map, Event.names,
        Statement.names, List.mem_flatMap]
      refine ⟨fun h => ?_, .inl⟩
      rcases h with h | ⟨-, -, h⟩ <;> exact h
    | _ => simp [itemEvents, itemScript, directiveScript, hkind, scriptEvents, Statement.draftEvents,
        Operation.statementEvents, Event.names, Statement.names]
  | _ => simp [itemEvents, itemScript, scriptEvents, Statement.draftEvents, Operation.statementEvents, Event.names,
      Statement.names]

theorem declaration?_itemEvents {item : Statement} (hk : m.Known item) {e : Event} (he : e ∈ m.itemEvents item)
    {id : String} {y : ParticipantKind × Option String} (hy : e.declaration? id = some y) :
    item.createsId id = true ∧ y = ((m.created id).kind, (m.created id).label) := by
  cases item with
  | directive x =>
    cases hkind : x.kind with
    | create =>
      have hid := (created_mem (hk x rfl hkind)).2
      rw [itemEvents_create hkind, hid] at he
      rcases List.mem_cons.1 he with rfl | he
      · simp only [Event.declaration?, Option.ite_none_right_eq_some, Option.some.injEq] at hy
        obtain ⟨rfl, rfl⟩ := hy
        exact ⟨by simp [Statement.createsId, hkind], rfl⟩
      · obtain ⟨l, -, rfl⟩ := List.mem_map.1 he
        cases hy
    | _ =>
      simp only [itemEvents, itemScript, directiveScript, hkind] at he
      obtain rfl := List.mem_singleton.1 he
      cases hy
  | message x | note n | blockStart s | blockBranch b | blockEnd x =>
    obtain rfl := List.mem_singleton.1 he
    cases hy
  | _ => cases he

theorem declares_itemEvents {item : Statement} (hk : m.Known item) (id : String) :
    (m.itemEvents item).any (Event.declares id) = item.createsId id := by
  cases hc : item.createsId id with
  | false =>
    rw [List.any_eq_false]
    intro e he hd
    obtain ⟨y, hy⟩ := Option.isSome_iff_exists.1 hd
    simp [(declaration?_itemEvents hk he hy).1] at hc
  | true =>
    cases item with
    | directive x =>
      simp only [Statement.createsId, Bool.and_eq_true, beq_iff_eq] at hc
      obtain ⟨hkind, rfl⟩ := hc
      simp [itemEvents_create hkind, Event.declares, Event.declaration?, (created_mem (hk x rfl hkind)).2]
    | _ => cases hc

/-- The links that events attach are those of the participant. -/
theorem link?_links (p : Participant) (id : String) :
    ((p.links.map Link.read).map (Event.link p.id)).filterMap (Event.link? id) =
      if p.id = id then p.links.map Link.reread else [] := by
  rw [List.map_map, List.filterMap_map]
  split
  · rename_i hid
    rw [← List.filterMap_eq_map]
    refine List.filterMap_congr fun l _ => ?_
    simp [Event.link?, hid, Link.reread]
  · rename_i hid
    refine List.filterMap_eq_nil_iff.2 fun l _ => ?_
    simp [Event.link?, hid]

theorem link?_itemEvents {item : Statement} (hk : m.Known item) (id : String) :
    (m.itemEvents item).filterMap (Event.link? id) =
      if item.createsId id then (m.created id).links.map Link.reread else [] := by
  cases item with
  | directive x =>
    cases hkind : x.kind with
    | create =>
      have hid := (created_mem (hk x rfl hkind)).2
      have hl := link?_links (m.created x.id) id
      rw [itemEvents_create hkind, List.filterMap_cons_none rfl, hl, hid]
      by_cases he : x.id = id
      · simp [Statement.createsId, hkind, he]
      · simp [Statement.createsId, he]
    | _ => simp [itemEvents, itemScript, directiveScript, hkind, scriptEvents, Statement.draftEvents,
        Operation.statementEvents, Event.link?, Statement.createsId]
  | _ => simp [itemEvents, itemScript, scriptEvents, Statement.draftEvents, Operation.statementEvents, Event.link?,
      Statement.createsId]

/-! ## The events of the script -/

theorem mem_columnEvents {c : Column} {e : Event} (he : e ∈ scriptEvents (m.columnScript c)) :
    (∃ p ∈ m.columnMembers c, e = .declare p.id p.kind p.label) ∨ (∃ heading, e = .openBox heading) ∨ e = .close := by
  cases c with
  | alone p => exact .inl ⟨p, List.mem_singleton_self p, List.mem_singleton.1 he⟩
  | boxed place box =>
    rw [scriptEvents_boxed, List.mem_cons, List.mem_append, List.mem_singleton] at he
    rcases he with rfl | he | rfl
    · exact .inr (.inl ⟨_, rfl⟩)
    · obtain ⟨p, hp, rfl⟩ := List.mem_map.1 he
      exact .inl ⟨p, hp, rfl⟩
    · exact .inr (.inr rfl)

theorem declare_mem_columnEvents {c : Column} {p : Participant} (hp : p ∈ m.columnMembers c) :
    .declare p.id p.kind p.label ∈ scriptEvents (m.columnScript c) := by
  cases c with
  | alone q =>
    obtain rfl := List.mem_singleton.1 hp
    exact List.mem_singleton_self _
  | boxed place box =>
    rw [scriptEvents_boxed]
    exact List.mem_cons_of_mem _ (List.mem_append_left _ (List.mem_map_of_mem hp))

/-- The links that are written before the timeline. -/
def linkEvents (m : Diagram) : List Event :=
  (m.participants.filter fun p => !m.creates p.id).flatMap fun p => (p.links.map Link.read).map (.link p.id)

/-- The events of a script after which nothing is open. -/
theorem scriptEvents_script (hclosed : openAfter past = []) (layout : Layout) :
    scriptEvents (m.script layout past) = (if m.autonumber then [.number true] else []) ++
      (m.allColumns layout).flatMap (fun c => scriptEvents (m.columnScript c)) ++ m.linkEvents ++
        past.reverse.flatMap m.itemEvents := by
  have hnumber : scriptEvents (if m.autonumber then [((⟨1, autonumberWord⟩ : Line), Statement.autonumber)] else []) =
      if m.autonumber then [.number true] else [] := by
    split <;> rfl
  have hcols : scriptEvents ((m.allColumns layout).flatMap m.columnScript) =
      (m.allColumns layout).flatMap fun c => scriptEvents (m.columnScript c) := List.flatMap_assoc
  have hlinks : scriptEvents ((m.participants.filter fun p => !m.creates p.id).flatMap fun p => p.linkScript 1) =
      m.linkEvents := by
    refine List.flatMap_assoc.trans ?_
    exact congrArg (fun f => List.flatMap f _) (funext fun p => scriptEvents_linkScript p 1)
  rw [script, headScript, hclosed, List.length_nil, closingScript, List.append_nil]
  simp only [scriptEvents_append, hnumber, hcols, hlinks, scriptEvents_pastScript]

/-- Where an event of the script stands: in the numbering, in a column, among the links or in the
timeline. -/
theorem mem_scriptEvents (hclosed : openAfter past = []) (layout : Layout) {e : Event} :
    e ∈ scriptEvents (m.script layout past) ↔ (m.autonumber = true ∧ e = .number true) ∨
      (∃ c ∈ m.allColumns layout, e ∈ scriptEvents (m.columnScript c)) ∨ e ∈ m.linkEvents ∨
        ∃ item ∈ past, e ∈ m.itemEvents item := by
  rw [scriptEvents_script hclosed]
  cases m.autonumber <;> simp

theorem mem_linkEvents {e : Event} : e ∈ m.linkEvents ↔
    ∃ p ∈ m.participants, m.creates p.id = false ∧ ∃ l ∈ p.links, e = .link p.id l.read := by
  simp only [linkEvents, List.mem_flatMap, List.mem_filter, Bool.not_eq_true', List.mem_map, exists_exists_and_eq_and,
    and_assoc, eq_comm (b := e)]

/-- A diagram creates the participants that its timeline creates. -/
theorem creates_eq_any (m : Diagram) (id : String) : m.creates id = m.timeline.any (Statement.createsId id) := by
  rw [Bool.eq_iff_iff]
  simp only [creates, createdIds, directives, List.contains_iff_mem, mem_sortedSet, List.mem_map, List.mem_filter,
    List.mem_filterMap, beq_iff_eq, List.any_eq_true]
  constructor
  · rintro ⟨x, ⟨⟨item, hi, hx⟩, hk⟩, rfl⟩
    refine ⟨item, hi, ?_⟩
    cases item <;> cases hx
    simp [Statement.createsId, hk]
  · rintro ⟨item, hi, hc⟩
    cases item with
    | directive x =>
      simp only [Statement.createsId, Bool.and_eq_true, beq_iff_eq] at hc
      exact ⟨x, ⟨⟨_, hi, rfl⟩, hc.1⟩, hc.2⟩
    | _ => cases hc

theorem creates_eq (ht : m.timeline.map Statement.bare = past.reverse) (id : String) :
    m.creates id = past.any (Statement.createsId id) := by
  have hbare : ∀ item : Statement, item.bare.createsId id = item.createsId id := fun item => by cases item <;> rfl
  rw [creates_eq_any, ← past.any_reverse, ← ht, List.any_map]
  exact congrArg (fun p => m.timeline.any p) (funext hbare).symm

/-! ## The participants -/

/-- What holds of the participants of a diagram that was built, given its timeline latest
first. -/
structure Cast (m : Diagram) (past : List Statement) : Prop where
  named : ∀ item ∈ past, ∀ id ∈ item.names, id ∈ m.participantIds
  used : ∀ p ∈ m.participants, p.explicit = true ∨ p.links ≠ [] ∨ ∃ item ∈ past, p.id ∈ item.names
  implicit : ∀ p ∈ m.participants, p.explicit = false → p.kind = .participant ∧ p.label = none
  boxed : ∀ p ∈ m.participants, ∀ b ∈ m.boxes, p.id ∈ b.members → p.explicit = true
  created : ∀ p ∈ m.participants, m.creates p.id = true → p.explicit = true
  once : ∀ p ∈ m.participants, p.links = [] ∨ past.countP (Statement.createsId p.id) ≤ 1

theorem Legible.knows (h : m.Legible past) {item : Statement} (hi : item ∈ past) : m.Known item := by
  rintro x rfl hk
  exact h.known x hi hk

theorem created_eq (h : m.participantIds.Nodup) {p : Participant} (hp : p ∈ m.participants) : m.created p.id = p := by
  simp [Diagram.created, participant?_of_mem h hp]

theorem columnMember_mem (h : m.WellBoxed) {layout : Layout} {c : Column} (hc : c ∈ m.allColumns layout)
    {p : Participant} (hp : p ∈ m.columnMembers c) : p ∈ m.participants :=
  ((mem_columnMembers h layout).1 ⟨c, hc, hp⟩).1

/-- Whether a participant is declared in a column. -/
def InColumn (m : Diagram) (layout : Layout) (p : Participant) : Prop :=
  m.creates p.id = false ∧ (p.explicit || layout.declareImplicit) = true

theorem Cast.inColumn (hc : m.Cast past) (h : m.WellBoxed) (layout : Layout) {p : Participant}
    (hp : p ∈ m.participants) : (∃ c ∈ m.allColumns layout, p ∈ m.columnMembers c) ↔ m.InColumn layout p := by
  rw [mem_columnMembers h layout]
  refine ⟨fun ⟨_, hcr, ho⟩ => ⟨hcr, ho.elim (fun hb => ?_) id⟩, fun ⟨hcr, he⟩ => ⟨hp, hcr, .inr he⟩⟩
  obtain ⟨⟨place, box⟩, hb⟩ := Option.isSome_iff_exists.1 hb
  obtain ⟨hbox, hid⟩ := (boxOf?_eq_some h).1 hb
  simp [hc.boxed p hp box (List.mem_of_getElem? hbox) hid]

/-- The script names the participants of the diagram. -/
theorem Cast.names_iff (hc : m.Cast past) (h : m.Legible past) (hclosed : openAfter past = []) (layout : Layout)
    (id : String) : id ∈ (scriptEvents (m.script layout past)).flatMap Event.names ↔ id ∈ m.participantIds := by
  have hitem : ∀ item ∈ past, id ∈ (m.itemEvents item).flatMap Event.names ↔ id ∈ item.names := fun item hi =>
    names_itemEvents (h.knows hi) id
  simp only [List.mem_flatMap] at hitem ⊢
  -- What the script names is known; a participant is created, in a column, linked or in the timeline.
  constructor
  · rintro ⟨e, he, hid⟩
    rcases (mem_scriptEvents hclosed layout).1 he with ⟨-, rfl⟩ | ⟨c, hcol, he⟩ | he | ⟨item, hi, he⟩
    · cases hid
    · rcases mem_columnEvents he with ⟨p, hp, rfl⟩ | ⟨heading, rfl⟩ | rfl
      · obtain rfl := List.mem_singleton.1 hid
        exact List.mem_map_of_mem (columnMember_mem h.boxed hcol hp)
      · cases hid
      · cases hid
    · obtain ⟨p, hp, -, l, -, rfl⟩ := mem_linkEvents.1 he
      obtain rfl := List.mem_singleton.1 hid
      exact List.mem_map_of_mem hp
    · exact hc.named item hi id ((hitem item hi).1 ⟨e, he, hid⟩)
  · intro hid
    have htimed : ∀ item ∈ past, id ∈ item.names → ∃ e ∈ scriptEvents (m.script layout past), id ∈ e.names := by
      intro item hi hn
      obtain ⟨e, he, hid⟩ := (hitem item hi).2 hn
      exact ⟨e, (mem_scriptEvents hclosed layout).2 (.inr (.inr (.inr ⟨item, hi, he⟩))), hid⟩
    obtain ⟨p, hp, rfl⟩ := List.mem_map.1 hid
    cases hcr : m.creates p.id with
    | true =>
      rw [creates_eq h.timeline, List.any_eq_true] at hcr
      obtain ⟨item, hi, hit⟩ := hcr
      exact htimed item hi (Statement.names_of_createsId hit)
    | false =>
      rcases hc.used p hp with he | hl | ⟨item, hi, hn⟩
      · obtain ⟨c, hcol, hm⟩ := (hc.inColumn h.boxed layout hp).2 ⟨hcr, by simp [he]⟩
        have hdecl := (mem_scriptEvents hclosed layout).2 (.inr (.inl ⟨c, hcol, declare_mem_columnEvents hm⟩))
        exact ⟨_, hdecl, by simp [Event.names]⟩
      · obtain ⟨l, hl⟩ := List.exists_mem_of_ne_nil _ hl
        have hlink := (mem_scriptEvents hclosed layout).2 (.inr (.inr (.inl (mem_linkEvents.2 ⟨p, hp, hcr, l, hl, rfl⟩))))
        exact ⟨_, hlink, by simp [Event.names]⟩
      · exact htimed item hi hn

/-- Where the script declares a participant, it says what the diagram says. -/
theorem Cast.declared (hc : m.Cast past) (h : m.Legible past) (hclosed : openAfter past = []) (layout : Layout)
    {p : Participant} (hp : p ∈ m.participants) {e : Event} (he : e ∈ scriptEvents (m.script layout past))
    {y : ParticipantKind × Option String} (hy : e.declaration? p.id = some y) :
    y = (p.kind, p.label) ∧ (m.InColumn layout p ∨ m.creates p.id = true) := by
  rcases (mem_scriptEvents hclosed layout).1 he with ⟨-, rfl⟩ | ⟨c, hcol, he⟩ | he | ⟨item, hi, he⟩
  · cases hy
  · rcases mem_columnEvents he with ⟨q, hq, rfl⟩ | ⟨heading, rfl⟩ | rfl
    · simp only [Event.declaration?, Option.ite_none_right_eq_some, Option.some.injEq] at hy
      obtain ⟨hid, rfl⟩ := hy
      obtain rfl := List.inj_on_of_nodup_map h.boxed.nodup (columnMember_mem h.boxed hcol hq) hp hid
      exact ⟨rfl, .inl ((hc.inColumn h.boxed layout hp).1 ⟨c, hcol, hq⟩)⟩
    · cases hy
    · cases hy
  · obtain ⟨q, -, -, l, -, rfl⟩ := mem_linkEvents.1 he
    cases hy
  · obtain ⟨hcr, rfl⟩ := declaration?_itemEvents (h.knows hi) he hy
    rw [creates_eq h.timeline, List.any_eq_true, created_eq h.boxed.nodup hp]
    exact ⟨rfl, .inr ⟨item, hi, hcr⟩⟩

/-- What the script says about a participant is what the diagram says. -/
theorem Cast.declaration (hc : m.Cast past) (h : m.Legible past) (hclosed : openAfter past = []) (layout : Layout)
    {p : Participant} (hp : p ∈ m.participants) :
    (∀ e ∈ scriptEvents (m.script layout past), ∀ y ∈ e.declaration? p.id, y = (p.kind, p.label)) ∧
      ((scriptEvents (m.script layout past)).any (Event.declares p.id) = true ↔
        (p.explicit || layout.declareImplicit) = true) := by
  refine ⟨fun e he y hy => (hc.declared h hclosed layout hp he hy).1, fun hd => ?_, fun he => ?_⟩
  · obtain ⟨e, he, hd⟩ := List.any_eq_true.1 hd
    obtain ⟨y, hy⟩ := Option.isSome_iff_exists.1 hd
    rcases (hc.declared h hclosed layout hp he hy).2 with hcol | hcr
    · exact hcol.2
    · simp [hc.created p hp hcr]
  · rw [List.any_eq_true]
    cases hcr : m.creates p.id with
    | true =>
      rw [creates_eq h.timeline, List.any_eq_true] at hcr
      obtain ⟨item, hi, hit⟩ := hcr
      have hd := declares_itemEvents (h.knows hi) p.id
      rw [hit, List.any_eq_true] at hd
      obtain ⟨e, he, hd⟩ := hd
      exact ⟨e, (mem_scriptEvents hclosed layout).2 (.inr (.inr (.inr ⟨item, hi, he⟩))), hd⟩
    | false =>
      obtain ⟨c, hcol, hm⟩ := (hc.inColumn h.boxed layout hp).2 ⟨hcr, he⟩
      have hdecl := (mem_scriptEvents hclosed layout).2 (.inr (.inl ⟨c, hcol, declare_mem_columnEvents hm⟩))
      exact ⟨_, hdecl, by simp [Event.declares, Event.declaration?]⟩

/-- What occurs at most once, or is nothing, is found once if it occurs at all. -/
theorem flatMap_once {α β : Type} {xs : List α} {f : α → Bool} {ys : List β} (h : ys = [] ∨ xs.countP f ≤ 1) :
    (xs.flatMap fun x => if f x then ys else []) = if xs.any f then ys else [] := by
  induction xs with
  | nil => rfl
  | cons x xs ih =>
    cases hx : f x with
    | false =>
      rw [List.countP_cons_of_neg (by simp [hx])] at h
      simpa [hx] using ih h
    | true =>
      rcases h with rfl | h
      · simp
      · rw [List.countP_cons_of_pos hx] at h
        have hz : xs.countP f = 0 := by omega
        have hnone : ∀ y ∈ xs, f y = false := fun y hy => by simpa using List.countP_eq_zero.1 hz y hy
        have hrest : (xs.flatMap fun x => if f x then ys else []) = [] :=
          List.flatMap_eq_nil_iff.2 fun y hy => by simp [hnone y hy]
        simp [hx, hrest]

/-- Before the timeline, the links of a participant are those it has, unless the timeline creates
it. -/
theorem link?_linkEvents (hn : m.participantIds.Nodup) {p : Participant} (hp : p ∈ m.participants) :
    m.linkEvents.filterMap (Event.link? p.id) = if m.creates p.id then [] else p.links.map Link.reread := by
  have hcount : (m.participants.filter fun q => !m.creates q.id).countP (fun q => q.id == p.id) ≤ 1 := by
    refine Nat.le_trans List.filter_sublist.countP_le ?_
    have := List.nodup_iff_count_le_one.1 hn p.id
    rwa [participantIds, List.count, List.countP_map] at this
  have hone : ((m.participants.filter fun q => !m.creates q.id).flatMap fun q =>
      if q.id == p.id then p.links.map Link.reread else []) = _ := flatMap_once (.inr hcount)
  have hany : ((m.participants.filter fun q => !m.creates q.id).any fun q => q.id == p.id) = !m.creates p.id := by
    rw [Bool.eq_iff_iff, List.any_eq_true]
    constructor
    · rintro ⟨q, hq, hid⟩
      rw [← beq_iff_eq.1 hid]
      exact (List.mem_filter.1 hq).2
    · exact fun hcr => ⟨p, List.mem_filter.2 ⟨hp, hcr⟩, by simp⟩
  rw [hany] at hone
  rw [linkEvents, List.filterMap_flatMap]
  refine Eq.trans (List.flatMap_congr fun q hq => ?_) (hone.trans (by cases m.creates p.id <;> rfl))
  rw [link?_links q]
  by_cases hid : q.id = p.id
  · obtain rfl := List.inj_on_of_nodup_map hn (List.mem_filter.1 hq).1 hp hid
    simp
  · simp [hid]

/-- The timeline gives a participant its links where it creates it. -/
theorem Cast.link?_itemsEvents (hc : m.Cast past) (h : m.Legible past) {p : Participant} (hp : p ∈ m.participants) :
    (past.reverse.flatMap m.itemEvents).filterMap (Event.link? p.id) =
      if m.creates p.id then p.links.map Link.reread else [] := by
  have hone : (past.reverse.flatMap fun item =>
      if item.createsId p.id then p.links.map Link.reread else []) = _ :=
    flatMap_once (by simpa using hc.once p hp)
  rw [List.any_reverse, ← creates_eq h.timeline] at hone
  rw [List.filterMap_flatMap, ← hone]
  refine List.flatMap_congr fun item hi => ?_
  rw [link?_itemEvents (h.knows (List.mem_reverse.1 hi)), created_eq h.boxed.nodup hp]

/-- The script gives a participant its links once. -/
theorem Cast.links (hc : m.Cast past) (h : m.Legible past) (hclosed : openAfter past = []) (layout : Layout)
    {p : Participant} (hp : p ∈ m.participants) :
    (scriptEvents (m.script layout past)).filterMap (Event.link? p.id) =
      p.links.map Link.reread := by
  have hnumber : (if m.autonumber then [Event.number true] else []).filterMap (Event.link? p.id) = [] := by
    split <;> rfl
  have hcols : ((m.allColumns layout).flatMap fun c => scriptEvents (m.columnScript c)).filterMap
      (Event.link? p.id) = [] := by
    refine List.filterMap_eq_nil_iff.2 fun e he => ?_
    obtain ⟨c, -, he⟩ := List.mem_flatMap.1 he
    rcases mem_columnEvents he with ⟨q, -, rfl⟩ | ⟨heading, rfl⟩ | rfl <;> rfl
  rw [scriptEvents_script hclosed]
  simp only [List.filterMap_append, hnumber, hcols, link?_linkEvents h.boxed.nodup hp, hc.link?_itemsEvents h hp]
  cases m.creates p.id <;> simp

/-- A participant as the lines of a diagram give it: declared if all are, with its links as
they are read. -/
def relisted (layout : Layout) (p : Participant) : Participant :=
  { p with explicit := p.explicit || layout.declareImplicit, links := p.links.map Link.reread }

theorem outline_reread (h : History past) : (past.map reread).map outline = past.map outline := by
  induction past with
  | nil => rfl
  | cons item older ih =>
    have hitem : outline (reread item) = outline item := by
      cases item with
      | blockStart s =>
        obtain ⟨-, hb, hs, he⟩ := h.1
        simp [reread, outline, Block.asShown, hb, hs, he]
      | _ => rfl
    simp only [List.map_cons, hitem, ih h.2]

/-- The script leads to the participants of the diagram, though in another order. -/
theorem Cast.participants_perm (hc : m.Cast past) (h : m.Legible past) (hsettled : Settled past)
    (hclosed : openAfter past = [])
    (horders : ∀ p ∈ m.participants, p.createdAt = (Marks.ofPast p.id past).created.or (Marks.ofPast p.id past).awaitingCreate ∧
      p.destroyedAt = (Marks.ofPast p.id past).destroyed.or (Marks.ofPast p.id past).awaitingDestroy)
    (layout : Layout) {r : Draft} (hs : Draft.Steps {} (scriptEvents (m.script layout past)) r) :
    r.build.participants.Perm (m.participants.map (relisted layout)) := by
  have hids : r.roster.ids = ((scriptEvents (m.script layout past)).flatMap Event.names).foldl Roster.addName [] :=
    hs.ids
  have hnodup : r.roster.ids.Nodup := hids ▸ Roster.nodup_foldl_addName List.nodup_nil
  have hperm : r.roster.ids.Perm m.participantIds := by
    rw [List.perm_ext_iff_of_nodup hnodup h.boxed.nodup]
    intro id
    rw [hids, Roster.mem_foldl_addName, ← hc.names_iff h hclosed layout id]
    simp
  have hpast := (h.replay hsettled hclosed layout hs).1
  rw [build_participants hnodup (Draft.marked_of_steps hs), hpast]
  -- Told by id, card and marks, each participant is the one that the script lists again.
  refine (hperm.map _).trans (List.Perm.of_eq ?_)
  rw [participantIds, List.map_map]
  refine List.map_congr_left fun p hp => ?_
  obtain ⟨hsaid, hdecl⟩ := hc.declaration h hclosed layout hp
  have hcard := hs.card p.id
  obtain ⟨hcreated, hdestroyed⟩ := horders p hp
  have hempty : ({} : Draft).roster.card p.id = {} := rfl
  rw [hempty, Card.foldl_after hsaid, hc.links h hclosed layout hp] at hcard
  simp only [Function.comp_apply, participantOf, hcard, Marks.ofPast_congr (outline_reread h.history), ← hcreated, ← hdestroyed, relisted]
  cases hany : (scriptEvents (m.script layout past)).any (Event.declares p.id) with
  | true => simp [hdecl.1 hany]
  | false =>
    have he : (p.explicit || layout.declareImplicit) = false := by
      rw [← Bool.not_eq_true, ← hdecl, hany]
      simp
    obtain ⟨hkind, hlabel⟩ := hc.implicit p hp (Bool.or_eq_false_iff.1 he).1
    simp [he, hkind, hlabel]

end Diagram

end Lifeline
