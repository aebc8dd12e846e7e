import Lifeline.Proofs.Cast
/-!
# What holds of every diagram that is built

Events that mention no participant in passing keep a draft sound: its timeline and its
boxes name known participants, every participant has been declared, linked or named, and
no participant is in two boxes. The diagram of a sound draft has a cast and can be drawn
in columns.
-/

namespace Lifeline

open History

/-! ## Boxes -/

/-- No participant is in two boxes, nor twice in one. -/
structure Apart (boxes : List Box) : Prop where
  distinct : ∀ b ∈ boxes, b.members.Nodup
  once : ∀ {i j : Nat} {b b' : Box} {id : String}, boxes[i]? = some b → boxes[j]? = some b' → id ∈ b.members →
    id ∈ b'.members → i = j

theorem Apart.open {boxes : List Box} (h : Apart boxes) {box : Box} (hb : box.members = []) : Apart (boxes ++ [box]) := by
  have hat : ∀ {i : Nat} {b : Box} {id : String}, (boxes ++ [box])[i]? = some b → id ∈ b.members →
      boxes[i]? = some b := by
    intro i b id hi hid
    rw [List.getElem?_append] at hi
    split at hi
    · exact hi
    · obtain rfl := List.mem_singleton.1 (List.mem_of_getElem? hi)
      simp [hb] at hid
  constructor
  · intro b hm
    rcases List.mem_append.1 hm with hm | hm
    · exact h.distinct b hm
    · obtain rfl := List.mem_singleton.1 hm
      simp [hb]
  · exact fun hi hj hid hid' => h.once (hat hi hid) (hat hj hid') hid hid'

/-- The box with one more participant. -/
def Box.join (id : String) (b : Box) : Box := { b with members := b.members ++ [id] }

/-- Where a box is joined stands the joined one, and elsewhere the box that stood there. -/
theorem Box.of_getElem?_join {boxes : List Box} {id : String} {place i : Nat} {b : Box}
    (h : (boxes.modify place (Box.join id))[i]? = some b) :
    ∃ b0, boxes[i]? = some b0 ∧ ((place = i ∧ b = b0.join id) ∨ (place ≠ i ∧ b = b0)) := by
  rw [List.getElem?_modify] at h
  obtain ⟨b0, hb0, hb⟩ := Option.map_eq_some_iff.1 h
  refine ⟨b0, hb0, ?_⟩
  by_cases hp : place = i
  · exact .inl ⟨hp, by simpa [hp] using hb.symm⟩
  · exact .inr ⟨hp, by simpa [hp] using hb.symm⟩

/-- Among boxes of which one is joined are the joined one and the others as they were. -/
theorem Box.of_mem_modify {boxes : List Box} {id : String} {place : Nat} {b : Box}
    (h : b ∈ boxes.modify place (Box.join id)) : ∃ b0 ∈ boxes, b = b0.join id ∨ b = b0 := by
  obtain ⟨i, hi⟩ := List.getElem?_of_mem h
  obtain ⟨b0, hb0, hcase⟩ := Box.of_getElem?_join hi
  exact ⟨b0, List.mem_of_getElem? hb0, hcase.imp And.right And.right⟩

/-- A participant of such a box was in it, or is the one that joined it. -/
theorem Box.of_mem_join {id x : String} {place i : Nat} {b0 b : Box}
    (h : (place = i ∧ b = b0.join id) ∨ (place ≠ i ∧ b = b0)) (hx : x ∈ b.members) :
    x ∈ b0.members ∨ (place = i ∧ x = id) := by
  rcases h with ⟨hp, rfl⟩ | ⟨-, rfl⟩
  · rcases List.mem_append.1 hx with hx | hx
    · exact .inl hx
    · exact .inr ⟨hp, List.mem_singleton.1 hx⟩
  · exact .inl hx

theorem Apart.join {boxes : List Box} (h : Apart boxes) {id : String} (hnew : ∀ b ∈ boxes, id ∉ b.members) (place : Nat) :
    Apart (boxes.modify place (Box.join id)) := by
  constructor
  · intro b hb
    obtain ⟨b0, hm0, rfl | rfl⟩ := Box.of_mem_modify hb
    · refine List.nodup_append.2 ⟨h.distinct b0 hm0, by simp, fun x hx y hy => ?_⟩
      rw [List.mem_singleton.1 hy]
      rintro rfl
      exact hnew b0 hm0 hx
    · exact h.distinct b hm0
  · intro i j b b' x hi hj hx hx'
    obtain ⟨b0, hb0, hcase⟩ := Box.of_getElem?_join hi
    obtain ⟨b0', hb0', hcase'⟩ := Box.of_getElem?_join hj
    have hnew0 := hnew b0 (List.mem_of_getElem? hb0)
    have hnew0' := hnew b0' (List.mem_of_getElem? hb0')
    rcases Box.of_mem_join hcase hx with hx | ⟨hp, rfl⟩
    · rcases Box.of_mem_join hcase' hx' with hx' | ⟨-, rfl⟩
      · exact h.once hb0 hb0' hx hx'
      · exact absurd hx hnew0
    · rcases Box.of_mem_join hcase' hx' with hx' | ⟨hp', -⟩
      · exact absurd hx' hnew0'
      · exact hp.symm.trans hp'

namespace Draft

/-- What an event does to the boxes. -/
theorem Step.boxes {d d' : Draft} {e : Event} (h : Step d e d') : d'.boxes = d.boxes ∨
    (∃ heading : Color.Heading, e = .openBox heading ∧
      d'.boxes = d.boxes ++ [{ label := heading.label, color := heading.color }]) ∨
    ∃ id kind label place, e = .declare id kind label ∧ (∀ b ∈ d.boxes, id ∉ b.members) ∧
      d'.boxes = d.boxes.modify place (Box.join id) := by
  cases h with
  | @declare id kind label r =>
    unfold joinBox
    split
    · exact .inl rfl
    · rename_i frame hf
      split
      · exact .inl rfl
      · rename_i hany
        exact .inr (.inr ⟨id, kind, label, frame.content, rfl, by simpa using hany, rfl⟩)
  | openBox => exact .inr (.inl ⟨_, rfl, rfl⟩)
  | message => exact .inl (boxes_settle _ _)
  | _ => exact .inl rfl

end Draft

/-! ## Sound drafts -/

namespace Card

theorem explicit_after {c : Card} (h : c.explicit = true) (id : String) (e : Event) : (c.after id e).explicit = true := by
  unfold after
  split
  · rfl
  · exact h

theorem links_after {c : Card} (h : c.links ≠ []) (id : String) (e : Event) : (c.after id e).links ≠ [] := by
  unfold after
  split
  · exact h
  · simp [h]

/-- What has not been declared is as it was at first. -/
def Plain (c : Card) : Prop := c.explicit = false → c.kind = .participant ∧ c.label = none

theorem Plain.after {c : Card} (h : c.Plain) (id : String) (e : Event) : (c.after id e).Plain := by
  unfold Card.after
  split
  · intro he
    cases he
  · exact h

end Card

namespace Draft

/-- The participants in boxes are known and have been declared. -/
def Boxed (d : Draft) : Prop :=
  ∀ b ∈ d.boxes, ∀ id ∈ b.members, (d.roster.card id).explicit = true ∧ id ∈ d.roster.ids

theorem Step.boxed {d d' : Draft} {e : Event} (h : Step d e d') (hd : d.Boxed) : d'.Boxed := by
  have hold : ∀ b ∈ d.boxes, ∀ id ∈ b.members, (d'.roster.card id).explicit = true ∧ id ∈ d'.roster.ids := by
    intro b hb id hid
    obtain ⟨hexplicit, hknown⟩ := hd b hb id hid
    rw [h.card, h.ids, Roster.mem_foldl_addName]
    exact ⟨Card.explicit_after hexplicit _ _, .inl hknown⟩
  intro b hm i hi
  rcases h.boxes with hb | ⟨heading, -, hb⟩ | ⟨id, kind, label, place, rfl, -, hb⟩
  · exact hold b (hb ▸ hm) i hi
  · rw [hb] at hm
    rcases List.mem_append.1 hm with hm | hm
    · exact hold b hm i hi
    · obtain rfl := List.mem_singleton.1 hm
      simp at hi
  · rw [hb] at hm
    obtain ⟨b0, hm0, rfl | rfl⟩ := Box.of_mem_modify hm
    · rcases List.mem_append.1 hi with hi | hi
      · exact hold b0 hm0 i hi
      · obtain rfl := List.mem_singleton.1 hi
        rw [h.card, h.ids, Roster.mem_foldl_addName]
        exact ⟨by simp [Card.after, Event.declaration?, Card.declare], .inr (by simp [Event.names])⟩
    · exact hold b hm0 i hi

theorem Step.apart {d d' : Draft} {e : Event} (h : Step d e d') (hd : Apart d.boxes) : Apart d'.boxes := by
  rcases h.boxes with hb | ⟨heading, -, hb⟩ | ⟨id, kind, label, place, -, hnew, hb⟩
  · exact hb ▸ hd
  · exact hb ▸ hd.open rfl
  · exact hb ▸ hd.join hnew place

/-- What events without a mention in passing keep. -/
structure WellFormed (d : Draft) : Prop where
  nodup : d.roster.ids.Nodup
  named : ∀ id ∈ d.past.flatMap Statement.names, id ∈ d.roster.ids
  used : ∀ id ∈ d.roster.ids, (d.roster.card id).explicit = true ∨ (d.roster.card id).links ≠ [] ∨
    id ∈ d.past.flatMap Statement.names
  plain : ∀ id, (d.roster.card id).Plain
  created : ∀ id, d.past.countP (Statement.createsId id) ≠ 0 → (d.roster.card id).explicit = true
  boxed : ∀ b ∈ d.boxes, ∀ id ∈ b.members, (d.roster.card id).explicit = true ∧ id ∈ d.roster.ids
  apart : Apart d.boxes

theorem wellFormed_empty : WellFormed {} where
  nodup := List.nodup_nil
  named := by simp
  used := by simp [Roster.ids]
  plain := fun _ _ => ⟨rfl, rfl⟩
  created := by simp
  boxed := by simp
  apart := ⟨by simp, by simp⟩

/-- An event that is more than a mention in passing. -/
def IsReal (e : Event) : Prop := ∀ id, e ≠ .mention id

theorem isReal_scriptEvents (script : List Saying) : ∀ e ∈ Diagram.scriptEvents script, IsReal e := by
  rintro _ he id rfl
  obtain ⟨⟨line, x⟩, -, he⟩ := List.mem_flatMap.1 he
  cases x with
  | directive x =>
    cases hk : x.kind <;> simp [Statement.draftEvents, Operation.statementEvents, hk, Roster.get?] at he
  | declaration p => cases hc : p.created <;> simp [Statement.draftEvents, Operation.statementEvents, hc] at he
  | _ => simp [Statement.draftEvents, Operation.statementEvents] at he

theorem Step.wellFormed {d d' : Draft} {e : Event} (h : Step d e d') (he : IsReal e) (hd : d.WellFormed) :
    d'.WellFormed := by
  have hids : ∀ {id}, id ∈ d'.roster.ids ↔ id ∈ d.roster.ids ∨ id ∈ e.names := by
    intro id
    rw [h.ids, Roster.mem_foldl_addName]
  have hexplicit : ∀ {id}, (d.roster.card id).explicit = true → (d'.roster.card id).explicit = true := fun hx =>
    h.card _ ▸ Card.explicit_after hx _ _
  refine ⟨h.ids ▸ Roster.nodup_foldl_addName hd.nodup, fun id hid => ?_, fun id hid => ?_, fun id => ?_, fun id hc => ?_,
    ?_, ?_⟩
  · rw [hids]
    exact ((h.names id).1 hid).imp (hd.named id) Event.timed_sub_names
  · rcases hids.1 hid with hid | hid
    · rcases hd.used id hid with hx | hl | hn
      · exact .inl (hexplicit hx)
      · exact .inr (.inl (h.card id ▸ Card.links_after hl id e))
      · exact .inr (.inr ((h.names id).2 (.inl hn)))
    · cases e with
      | mention i => exact absurd rfl (he i)
      | declare i kind label | create i kind label =>
        obtain rfl := List.mem_singleton.1 hid
        exact .inl (by simp [h.card, Card.after, Event.declaration?, Card.declare])
      | link i l =>
        obtain rfl := List.mem_singleton.1 hid
        exact .inr (.inl (by simp [h.card, Card.after, Event.declaration?, Event.link?]))
      | destroy i | activation i activate | message m | note n => exact .inr (.inr ((h.names id).2 (.inr hid)))
      | _ => cases hid
  · rw [h.card]
    exact (hd.plain id).after id e
  · rw [h.creations] at hc
    by_cases hz : d.past.countP (Statement.createsId id) = 0
    · have hcr : e.creates id = true := by
        by_contra hn
        simp [hz, hn] at hc
      cases e with
      | create i kind label =>
        obtain rfl : i = id := by simpa [Event.creates] using hcr
        simp [h.card, Card.after, Event.declaration?, Card.declare]
      | _ => cases hcr
    · exact hexplicit (hd.created id hz)
  · exact h.boxed hd.boxed
  · exact h.apart hd.apart

/-- What holds of every draft that real events lead to. -/
structure Regular (d : Draft) : Prop where
  wellFormed : d.WellFormed
  aligned : d.Aligned
  marked : d.Marked
  settled : Settled d.past

theorem regular_empty : Regular {} := ⟨wellFormed_empty, aligned_empty, fun _ => rfl, trivial⟩

theorem Step.regular {d d' : Draft} {e : Event} (h : Step d e d') (he : IsReal e) (hd : d.Regular) : d'.Regular :=
  ⟨h.wellFormed he hd.wellFormed, h.aligned hd.aligned, h.marked hd.marked, h.settled hd.settled⟩

theorem Steps.regular {d d' : Draft} {es : List Event} (hs : Steps d es d') (he : ∀ e ∈ es, IsReal e)
    (hd : d.Regular) : d'.Regular :=
  hs.keep (fun he h => h.regular he) he hd

/-! ## The diagram of a draft -/

theorem build_ids (d : Draft) : d.build.participantIds = d.roster.ids := by
  simp [build, Diagram.participantIds, Roster.ids, Function.comp_def]

theorem build_timeline {d : Draft} (ha : d.Aligned) : d.build.timeline.map Statement.bare = d.past.reverse :=
  timeline_bare ha _

/-- Diagnostics do not change the timeline of a diagram. -/
theorem build_timeline_of_eq {d : Draft} {m : Diagram} (ha : d.Aligned)
    (hm : m = { d.build with diagnostics := m.diagnostics }) : m.timeline.map Statement.bare = d.past.reverse := by
  rw [hm]
  exact build_timeline ha

/-- A participant of the diagram is told by its card and its marks. -/
theorem participant_build {d : Draft} (hd : d.WellFormed) (hm : d.Marked) {p : Participant}
    (hp : p ∈ d.build.participants) :
    p.id ∈ d.roster.ids ∧ p = Diagram.participantOf p.id (d.roster.card p.id) (Marks.ofPast p.id d.past) := by
  rw [Diagram.build_participants hd.nodup hm] at hp
  obtain ⟨id, hid, rfl⟩ := List.mem_map.1 hp
  exact ⟨hid, rfl⟩

theorem build_wellBoxed {d : Draft} (hd : d.WellFormed) : d.build.WellBoxed where
  nodup := d.build_ids ▸ hd.nodup
  known := fun b hb id hid => d.build_ids ▸ (hd.boxed b hb id hid).2
  distinct := hd.apart.distinct
  once := hd.apart.once

theorem build_cast {d : Draft} (hd : d.WellFormed) (ha : d.Aligned) (hm : d.Marked)
    (hone : ∀ id, (d.roster.card id).links = [] ∨ d.past.countP (Statement.createsId id) ≤ 1) :
    d.build.Cast d.past where
  named := fun item hi id hid => d.build_ids ▸ hd.named id (List.mem_flatMap.2 ⟨item, hi, hid⟩)
  used := fun p hp => by
    obtain ⟨hid, he⟩ := participant_build hd hm hp
    rw [he]
    exact (hd.used p.id hid).imp_right fun h => h.imp_right List.mem_flatMap.1
  implicit := fun p hp hx => by
    have he := (participant_build hd hm hp).2
    rw [he] at hx ⊢
    exact hd.plain p.id hx
  boxed := fun p hp b hb hid => by
    rw [(participant_build hd hm hp).2]
    exact (hd.boxed b hb p.id hid).1
  created := fun p hp hc => by
    rw [Diagram.creates_eq (build_timeline ha), List.any_eq_true] at hc
    have hne : d.past.countP (Statement.createsId p.id) ≠ 0 := fun hz => by
      obtain ⟨item, hi, hx⟩ := hc
      exact List.countP_eq_zero.1 hz item hi hx
    rw [(participant_build hd hm hp).2]
    exact hd.created p.id hne
  once := fun p hp => by
    have := hone p.id
    rw [(participant_build hd hm hp).2]
    exact this

theorem build_orders {d : Draft} (hd : d.WellFormed) (hm : d.Marked) : ∀ p ∈ d.build.participants,
    p.createdAt = (Marks.ofPast p.id d.past).created.or (Marks.ofPast p.id d.past).awaitingCreate ∧
      p.destroyedAt = (Marks.ofPast p.id d.past).destroyed.or (Marks.ofPast p.id d.past).awaitingDestroy := by
  intro p hp
  have he := (participant_build hd hm hp).2
  exact ⟨congrArg Participant.createdAt he, congrArg Participant.destroyedAt he⟩

end Draft

end Lifeline
