import Lifeline.Proofs.Built
import Lifeline.Proofs.Lifespans
/-!
# Coherent diagrams

However operations follow each other, those that fail included, the participants, the boxes
and the timeline of a draft fit together: nothing names a participant that is not there,
nothing invalid has come into the timeline, and creations and destructions point into it. So it
is for the draft as it stands and for the diagram that is built from it (`Draft.always_coherent`).
-/

namespace Lifeline

open History

/-- The items of a diagram: those of its timeline, and those of its tree written out. -/
def Diagram.items (m : Diagram) : List Statement := m.timeline ++ Node.expandAll m.statements

/-- A diagram whose parts fit together. -/
structure Diagram.Coherent (m : Diagram) : Prop where
  distinct : m.participantIds.Nodup
  named : ∀ id ∈ m.participantIds, id ≠ ""
  known : ∀ item ∈ m.items, ∀ id ∈ item.names, id ∈ m.participantIds
  declared : ∀ b ∈ m.boxes, ∀ id ∈ b.members, ∃ p ∈ m.participants, p.id = id ∧ p.explicit = true
  once : (m.boxes.flatMap Box.members).Nodup
  marked : ∀ x, .message x ∈ m.items →
    ¬(x.source.activates ∧ x.source.deactivates) ∧ ¬(x.target.activates ∧ x.target.deactivates)
  targeted : ∀ n, .note n ∈ m.items → n.targets ≠ [] ∧ (n.placement ≠ .over → n.targets.length = 1)
  placed : ∀ p ∈ m.participants, ∀ order, p.createdAt = some order ∨ p.destroyedAt = some order →
    0 ≤ order ∧ order < m.timeline.length

/-- A draft as it stands, with its blocks open and what waits for a message still waiting. -/
def Draft.live (d : Draft) : Diagram where
  participants := d.roster.participants
  timeline := d.timeline none
  statements := d.statements
  boxes := d.boxes
  autonumber := d.autonumber

/-! ## Valid items -/

/-- An item that is no invalid message or note. -/
def Statement.Valid : Statement → Prop
  | .message m => m.fault? = none
  | .note n => n.fault? = none
  | _ => True

theorem Note.fault?_eq_none_iff (n : Note) :
    n.fault? = none ↔ n.targets ≠ [] ∧ (n.placement ≠ .over → n.targets.length = 1) := by
  unfold fault?
  by_cases hnone : n.targets = []
  · simp [hnone]
  · by_cases hover : n.placement = .over <;> simp [hnone, hover]

theorem Endpoint.valid_mark {e : Endpoint} (h : e.isFree = true) (activate : Bool) :
    ¬((Draft.mark activate e).activates ∧ (Draft.mark activate e).deactivates) := by
  simp only [isFree, Bool.and_eq_true, Bool.not_eq_true'] at h
  unfold Draft.mark
  split <;> simp [h]

theorem Message.fault?_fold {m m' : Message} {id : String} {activate : Bool} (h : Draft.fold? m id activate = some m')
    (hm : m.fault? = none) : m'.fault? = none := by
  rw [Message.fault?_eq_none_iff] at hm ⊢
  unfold Draft.fold? at h
  split at h
  · rename_i hc
    rw [Bool.and_eq_true] at hc
    cases h
    exact ⟨hm.1, Endpoint.valid_mark hc.2 activate⟩
  · split at h
    · rename_i hc
      rw [Bool.and_eq_true] at hc
      cases h
      exact ⟨Endpoint.valid_mark hc.2 activate, hm.2⟩
    · cases h

theorem Statement.valid_relabelItem {label : Option String} {item : Statement} (h : item.Valid) :
    (Draft.relabelItem label item).Valid := by
  cases item with
  | message m => exact h
  | note n => exact h
  | _ => trivial

/-! ## Marks in a timeline -/

/-- All marks of a participant are orders below a bound. -/
def Marks.Below (bound : Nat) (k : Marks) : Prop :=
  ∀ order, k.created = some order ∨ k.destroyed = some order ∨ k.awaitingCreate = some order ∨
    k.awaitingDestroy = some order → 0 ≤ order ∧ order < bound

namespace Marks

variable {bound : Nat} {k : Marks} {order : Int}

theorem Below.mono {bound' : Nat} (h : k.Below bound) (hle : bound ≤ bound') : k.Below bound' := by
  intro order ho
  have := h order ho
  omega

theorem Below.meet (h : k.Below bound) (ho : 0 ≤ order ∧ order < bound) : (k.meet order).Below bound := by
  intro i hi
  unfold Marks.meet at hi
  rcases hi with hi | hi | hi | hi
  · dsimp only at hi
    split at hi
    · exact Option.some.inj hi ▸ ho
    · exact h i (.inl hi)
  · dsimp only at hi
    split at hi
    · exact Option.some.inj hi ▸ ho
    · exact h i (.inr (.inl hi))
  · cases hi
  · cases hi

theorem Below.crossOut (h : k.Below bound) (ho : 0 ≤ order ∧ order < bound) : (k.crossOut order).Below bound := by
  intro i hi
  rcases hi with hi | hi | hi
  · exact h i (.inl hi)
  · rcases Option.or_eq_some_iff.1 hi with hi | ⟨-, hi⟩
    · exact h i (.inr (.inl hi))
    · exact Option.some.inj hi ▸ ho
  · exact h i (.inr (.inr hi))

theorem Below.message (h : k.Below bound) {m : Message} (ho : 0 ≤ m.order ∧ m.order < bound) (id : String) :
    (k.message id m).Below bound := by
  rw [message_eq]
  have hmet : (if m.involves id = true then k.meet m.order else k).Below bound := by
    split
    · exact h.meet ho
    · exact h
  split
  · exact hmet.crossOut ho
  · exact hmet

theorem Below.destroy (h : k.Below bound) {last : Option Statement} (ho : 0 ≤ order ∧ order < bound)
    (hlast : ∀ m, last = some (.message m) → 0 ≤ m.order ∧ m.order < bound) (id : String) :
    (k.destroy id last order).Below bound := by
  have hwaits : Below bound { k with awaitingDestroy := some order } := by
    intro i hi
    rcases hi with hi | hi | hi | hi
    · exact h i (.inl hi)
    · exact h i (.inr (.inl hi))
    · exact h i (.inr (.inr (.inl hi)))
    · exact Option.some.inj hi ▸ ho
  unfold Marks.destroy
  split
  · rename_i m
    split
    · intro i hi
      rcases hi with hi | hi | hi
      · exact h i (.inl hi)
      · exact Option.some.inj hi ▸ hlast m rfl
      · exact h i (.inr (.inr hi))
    · exact hwaits
  · exact hwaits

/-- The marks that a timeline leaves are places of the timeline. -/
theorem below_ofPast (id : String) {past : List Statement} (h : History past) : (ofPast id past).Below past.length := by
  induction past with
  | nil => simp [ofPast, Below]
  | cons item older ih =>
    have hlast : 0 ≤ item.order ∧ item.order < ((item :: older).length : Nat) := by
      have := order_eq h.1
      rw [List.length_cons]
      omega
    have hold : (ofPast id older).Below (item :: older).length := (ih h.2).mono (by simp)
    cases item with
    | message m => exact hold.message hlast id
    | directive x =>
      unfold ofPast
      split
      · cases x.kind with
        | create =>
          intro i hi
          rcases hi with hi | hi | hi | hi
          · exact hold i (.inl hi)
          · exact hold i (.inr (.inl hi))
          · exact Option.some.inj hi ▸ hlast
          · exact hold i (.inr (.inr (.inr hi)))
        | destroy =>
          refine hold.destroy hlast (fun m hm => ?_) id
          obtain ⟨rest, rfl⟩ := List.head?_eq_some_iff.1 hm
          have : m.order = rest.length := h.2.1
          simp only [List.length_cons]
          omega
        | _ => exact hold
      · exact hold
    | _ => exact hold

end Marks

/-! ## Names -/

namespace Roster

variable {r r' : Roster} {id : String}

theorem ne_empty_mention? (h : r.mention? id = some r') (hr : "" ∉ r.ids) : id ≠ "" := by
  rcases mention?_eq_some h with ⟨hc, -⟩ | ⟨-, hne, -⟩
  · rintro rfl
    exact hr (by simpa [contains_eq] using hc)
  · exact hne

theorem ne_empty_declare? {kind : ParticipantKind} {label : Option String} (h : r.declare? id kind label true = some r') :
    id ≠ "" := by
  rintro rfl
  simp [declare?] at h

theorem ne_empty_mentionAll? {ids : List String} (h : r.mentionAll? ids = some r') (hr : "" ∉ r.ids) : "" ∉ ids := by
  induction ids generalizing r with
  | nil => simp
  | cons id ids ih =>
    obtain ⟨r1, h1, h2⟩ := Option.bind_eq_some_iff.1 h
    have hne := ne_empty_mention? h1 hr
    have hrest := ih h2 (by rw [ids_mention? h1, mem_addName]; simp [hr, Ne.symm hne])
    simp [Ne.symm hne, hrest]

end Roster

namespace Draft

variable {d d' : Draft} {e : Event}

/-- No event names a participant without a name. -/
theorem Step.ne_empty (h : Step d e d') (hr : "" ∉ d.roster.ids) : "" ∉ e.names := by
  cases h with
  | mention h | link h | destroyAtLast h | destroyLater h | fold h | activation h =>
    simpa [Event.names, eq_comm] using Roster.ne_empty_mention? h hr
  | declare h | create h => simpa [Event.names, eq_comm] using Roster.ne_empty_declare? h
  | message hv h | note hv h => exact Roster.ne_empty_mentionAll? h hr
  | _ => simp [Event.names]

theorem Step.valid (h : Step d e d') (hd : ∀ item ∈ d.past, item.Valid) : ∀ item ∈ d'.past, item.Valid := by
  have hpush : ∀ item : Statement, item.Valid → ∀ x ∈ item :: d.past, x.Valid := by
    intro item hi
    exact List.forall_mem_cons.2 ⟨hi, hd⟩
  cases h with
  | declare => simpa using hd
  | message hv => simpa using hpush (.message (d.placed _)) hv
  | note hv => exact hpush (.note (d.placedNote _)) hv
  | fold hr hp hm =>
    rw [hp] at hd
    obtain ⟨hlast, holder⟩ := List.forall_mem_cons.1 hd
    exact List.forall_mem_cons.2 ⟨Message.fault?_fold hm hlast, holder⟩
  | extend => exact forall_changeAt hd fun item hi => Statement.valid_relabelItem (hd item hi)
  | mention | link | number | openBox | closeBox => exact hd
  | create | destroyAtLast | destroyLater | activation | openBlock | openBranch | closeBlock => exact hpush _ trivial

/-! ## Coherent drafts -/

/-- What every event keeps. -/
structure Coherent (d : Draft) : Prop where
  aligned : d.Aligned
  marked : d.Marked
  distinct : d.roster.ids.Nodup
  named : "" ∉ d.roster.ids
  known : ∀ id ∈ d.past.flatMap Statement.names, id ∈ d.roster.ids
  boxed : d.Boxed
  apart : Apart d.boxes
  valid : ∀ item ∈ d.past, item.Valid

theorem coherent_empty : Coherent {} where
  aligned := aligned_empty
  marked := fun _ => rfl
  distinct := List.nodup_nil
  named := by simp [Roster.ids]
  known := by simp
  boxed := by simp [Boxed]
  apart := ⟨by simp, by simp⟩
  valid := by simp

theorem Step.coherent (h : Step d e d') (hd : d.Coherent) : d'.Coherent where
  aligned := h.aligned hd.aligned
  marked := h.marked hd.marked
  distinct := h.ids ▸ Roster.nodup_foldl_addName hd.distinct
  named := by
    rw [h.ids, Roster.mem_foldl_addName]
    rintro (hold | hnew)
    · exact hd.named hold
    · exact h.ne_empty hd.named hnew
  known := fun id hid => by
    rw [h.ids, Roster.mem_foldl_addName]
    exact ((h.names id).1 hid).imp (hd.known id) Event.timed_sub_names
  boxed := h.boxed hd.boxed
  apart := h.apart hd.apart
  valid := h.valid hd.valid

theorem coherent_run (ops : List Operation) : (run {} ops).Coherent := run_keep coherent_empty Step.coherent ops

end Draft

/-! ## Their diagrams -/

theorem Apart.nodup {boxes : List Box} (h : Apart boxes) : (boxes.flatMap Box.members).Nodup := by
  rw [List.nodup_flatMap]
  refine ⟨h.distinct, ?_⟩
  rw [List.pairwise_iff_getElem]
  intro i j hi hj hlt
  have hne : i ≠ j := Nat.ne_of_lt hlt
  intro id hid hid'
  exact hne (h.once (List.getElem?_eq_getElem hi) (List.getElem?_eq_getElem hj) hid hid')

namespace Draft

variable {d : Draft}

theorem Coherent.card_of_mem (hd : d.Coherent) {p : Participant} (hp : p ∈ d.roster.participants) :
    d.roster.card p.id = p.card ∧ p.createdAt = (Marks.ofPast p.id d.past).created ∧
      p.destroyedAt = (Marks.ofPast p.id d.past).destroyed := by
  have hget : d.roster.get? p.id = some p := find?_key Participant.id hd.distinct hp
  rw [← hd.marked p.id]
  simp [Roster.card, marks, Roster.orders, hget]

/-- A diagram that shows a coherent draft is coherent. -/
theorem Coherent.diagram (hd : d.Coherent) {m : Diagram} {f : Participant → Participant}
    (hps : m.participants = d.roster.participants.map f)
    (hf : ∀ p, (f p).id = p.id ∧ (f p).explicit = p.explicit)
    (horders : ∀ p ∈ d.roster.participants, ∀ order,
      (f p).createdAt = some order ∨ (f p).destroyedAt = some order → 0 ≤ order ∧ order < d.past.length)
    (hboxes : m.boxes = d.boxes) (hlength : m.timeline.length = d.past.length)
    (hitems : ∀ item ∈ m.items, item.bare ∈ d.past ∨ ∃ e, item = .blockEnd e) : m.Coherent := by
  have hids : m.participantIds = d.roster.ids := by
    simp only [Diagram.participantIds, hps, Roster.ids, List.map_map]
    exact List.map_congr_left fun p _ => (hf p).1
  constructor
  · exact hids ▸ hd.distinct
  · intro id hid hempty
    exact hd.named (hids ▸ hempty ▸ hid)
  · intro item hitem id hid
    rw [hids]
    rcases hitems item hitem with hbare | ⟨e, rfl⟩
    · refine hd.known id (List.mem_flatMap.2 ⟨item.bare, hbare, ?_⟩)
      cases item <;> exact hid
    · cases hid
  · intro b hb id hid
    obtain ⟨hexplicit, hknown⟩ := hd.boxed b (hboxes ▸ hb) id hid
    obtain ⟨p, hp, rfl⟩ := List.mem_map.1 hknown
    rw [(hd.card_of_mem hp).1] at hexplicit
    refine ⟨f p, hps ▸ List.mem_map_of_mem hp, (hf p).1, (hf p).2.trans hexplicit⟩
  · exact hboxes ▸ hd.apart.nodup
  · intro x hx
    rcases hitems _ hx with hbare | ⟨e, hend⟩
    · exact (Message.fault?_eq_none_iff x).1 (hd.valid _ hbare)
    · cases hend
  · intro n hn
    rcases hitems _ hn with hbare | ⟨e, hend⟩
    · exact (Note.fault?_eq_none_iff n).1 (hd.valid _ hbare)
    · cases hend
  · intro p hp order ho
    rw [hps] at hp
    obtain ⟨q, hq, rfl⟩ := List.mem_map.1 hp
    rw [hlength]
    exact horders q hq order ho

theorem Coherent.items_live (hd : d.Coherent) : ∀ item ∈ d.live.items, item.bare ∈ d.past ∨ ∃ e, item = .blockEnd e := by
  have htime := timeline_bare hd.aligned none
  have htree := (grown_ofPast hd.aligned.history).nodes.1
  rw [← hd.aligned.grown] at htree
  intro item hitem
  refine .inl (List.mem_reverse.1 ?_)
  rcases List.mem_append.1 hitem with hitem | hitem
  · exact htime ▸ List.mem_map_of_mem hitem
  · exact htree ▸ List.mem_map_of_mem hitem

theorem Coherent.items_build (hd : d.Coherent) : ∀ item ∈ d.build.items, item.bare ∈ d.past ∨ ∃ e, item = .blockEnd e := by
  have htime := build_timeline hd.aligned
  have htree : (Node.expandAll d.build.statements).map Statement.bare =
      d.past.reverse ++ (Growth.ofPast d.past).path.map fun b => Block.closing b.startOrder d.nextOrder := by
    rw [hd.aligned.statements_build]
    exact (grown_ofPast hd.aligned.history).nodes_closed d.nextOrder
  intro item hitem
  rcases List.mem_append.1 hitem with hitem | hitem
  · exact .inl (List.mem_reverse.1 (htime ▸ List.mem_map_of_mem hitem))
  · have hbare := List.mem_map_of_mem (f := Statement.bare) hitem
    rcases List.mem_append.1 (htree ▸ hbare) with hpast | hend
    · exact .inl (List.mem_reverse.1 hpast)
    · -- The tree ends the open blocks, which the timeline does not.
      obtain ⟨b, -, he⟩ := List.mem_map.1 hend
      cases item <;> first | exact .inr ⟨_, rfl⟩ | cases he

/-- After any operations, failed ones included, a draft is coherent as it stands, and so is the
diagram that is built from it. -/
theorem always_coherent (ops : List Operation) : (run {} ops).live.Coherent ∧ (run {} ops).build.Coherent := by
  have hd := coherent_run ops
  generalize run {} ops = d at hd
  have hbelow : ∀ id, (Marks.ofPast id d.past).Below d.past.length := fun id => Marks.below_ofPast id hd.aligned.history
  constructor
  · refine hd.diagram (f := id) (List.map_id _).symm (fun _ => ⟨rfl, rfl⟩) ?_ rfl (by simp [live, timeline]) hd.items_live
    intro p hp order ho
    obtain ⟨-, hcreated, hdestroyed⟩ := hd.card_of_mem hp
    rw [id, hcreated, hdestroyed] at ho
    exact hbelow p.id order (ho.imp_right .inl)
  · refine hd.diagram rfl (fun _ => ⟨rfl, rfl⟩) ?_ rfl (by simp [build, timeline]) hd.items_build
    intro p hp order ho
    obtain ⟨-, hcreated, hdestroyed⟩ := hd.card_of_mem hp
    have hwaits := congrArg Marks.awaitingCreate (hd.marked p.id)
    have hwaits' := congrArg Marks.awaitingDestroy (hd.marked p.id)
    simp only [marks] at hwaits hwaits'
    simp only [hcreated, hdestroyed, hwaits, hwaits', Option.or_eq_some_iff] at ho
    refine hbelow p.id order ?_
    rcases ho with (ho | ⟨-, ho⟩) | ho | ⟨-, ho⟩
    · exact .inl ho
    · exact .inr (.inr (.inl ho))
    · exact .inr (.inl ho)
    · exact .inr (.inr (.inr ho))

end Draft

end Lifeline
