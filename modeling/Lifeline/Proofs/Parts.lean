import Mathlib.Data.List.Nodup
import Mathlib.Data.List.Perm.Basic
import Lifeline.Diagram.Roster
import Lifeline.Document.Writer
/-!
# The parts of the declarations

The writer goes through the participants of a diagram and keeps a list of the ids that it has
declared and of the boxes that it has drawn. A participant is passed over, or stands alone, or
has its box drawn around it. `Diagram.Draws` records such a run with the parts that come of it,
and what holds of the declarations is proved from this record, not from the writer's loops.
Nothing is supposed of the boxes: a participant may be in several of them or twice in one, and
a box may list ids that no participant has.
-/

namespace Lifeline

/-- Elements of a list at distinct places, with the elements at all other places behind them, are
the elements of the list. -/
theorem perm_zipIdx_of_places {α : Type} {l : List α} {es : List (α × Nat)} {places : List Nat}
    (hn : (es.map Prod.snd).Nodup) (he : ∀ e ∈ es, l[e.2]? = some e.1) (hp : ∀ i, i ∈ places ↔ i ∈ es.map Prod.snd) :
    (es ++ l.zipIdx.filter fun (_, i) => !places.contains i).Perm l.zipIdx := by
  have hzip : l.zipIdx.Nodup := by
    refine List.Nodup.of_map Prod.snd ?_
    rw [List.zipIdx_map_snd]
    exact List.nodup_range'
  have hes : es.Perm (l.zipIdx.filter fun (_, i) => places.contains i) := by
    rw [List.perm_ext_iff_of_nodup (hn.of_map _) (hzip.filter _)]
    rintro ⟨x, i⟩
    simp only [List.mem_filter, List.mem_zipIdx_iff_getElem?, List.contains_iff_mem, hp, List.mem_map]
    refine ⟨fun hm => ⟨he _ hm, _, hm, rfl⟩, ?_⟩
    rintro ⟨hx, ⟨y, _⟩, hm, rfl⟩
    obtain rfl := Option.some.inj (hx.symm.trans (he _ hm))
    exact hm
  exact (hes.append_right _).trans (List.filter_append_perm _ _)

/-- A part of the declarations: a participant alone, or the box at a place with the participants
that are declared inside it. -/
inductive Part where
  | alone (p : Participant)
  | boxed (place : Nat) (box : Box) (inside : List Participant)

namespace Part

/-- The lines of a part. A box is opened, holds the declarations inside it, and is closed. -/
def lines : Part → List Line
  | .alone p => [⟨1, p.declarationLine⟩]
  | .boxed _ box inside => ⟨1, box.headingLine⟩ :: inside.map (fun p => ⟨2, p.declarationLine⟩) ++ [⟨1, endWord⟩]

/-- The participants that a part declares. -/
def declared : Part → List Participant
  | .alone p => [p]
  | .boxed _ _ inside => inside

/-- The box of a part, with its place. -/
def box? : Part → Option (Box × Nat)
  | .alone _ => none
  | .boxed place box _ => some (box, place)

/-- A box at a place that is drawn empty. -/
def empty (e : Box × Nat) : Part :=
  .boxed e.2 e.1 []

theorem declared_empty (es : List (Box × Nat)) : (es.map empty).flatMap declared = [] := by
  rw [List.flatMap_eq_nil_iff]
  intro part hpart
  obtain ⟨e, -, rfl⟩ := List.mem_map.1 hpart
  rfl

theorem box?_empty (es : List (Box × Nat)) : (es.map empty).filterMap box? = es := by
  rw [List.filterMap_map]
  exact List.filterMap_some

end Part

namespace Diagram

variable {m : Diagram} {layout : Layout}

/-- Whether the timeline creates a participant. -/
def creates (m : Diagram) (id : String) : Bool := m.createdIds.contains id

/-! ## Participants and their boxes -/

theorem participant?_of_mem (h : m.participantIds.Nodup) {p : Participant} (hp : p ∈ m.participants) :
    m.participant? p.id = some p :=
  find?_key Participant.id h hp

theorem participant?_isSome {id : String} (h : id ∈ m.participantIds) :
    ∃ p ∈ m.participants, m.participant? id = some p ∧ p.id = id := by
  obtain ⟨p, hp, rfl⟩ := List.mem_map.1 h
  cases hf : m.participant? p.id with
  | none =>
    have := List.find?_eq_none.1 hf p hp
    simp at this
  | some q => exact ⟨q, List.mem_of_find?_eq_some hf, rfl, by simpa using List.find?_some hf⟩

/-- The box of an id stands at its place and lists the id. -/
theorem mem_of_boxOf? {id : String} {place : Nat} {box : Box} (h : m.boxOf? id = some (place, box)) :
    m.boxes[place]? = some box ∧ id ∈ box.members := by
  obtain ⟨⟨b, i⟩, hf, he⟩ := Option.map_eq_some_iff.1 h
  obtain ⟨rfl, rfl⟩ := Prod.mk.inj he
  exact ⟨by simpa using List.mem_zipIdx_iff_getElem?.1 (List.mem_of_find?_eq_some hf), by simpa using List.find?_some hf⟩

/-- An id without a box is listed by none. -/
theorem not_mem_of_boxOf? {id : String} (h : m.boxOf? id = none) : ∀ b ∈ m.boxes, id ∉ b.members := by
  intro b hb hid
  obtain ⟨i, hi⟩ := List.getElem?_of_mem hb
  have := List.find?_eq_none.1 (Option.map_eq_none_iff.1 h) (b, i) (List.mem_zipIdx_iff_getElem?.2 hi)
  exact this (by simpa using hid)

/-! ## Inside a box -/

/-- The ids that have been declared after some participants, latest first. -/
def idsAfter (ps : List Participant) (declared : List String) : List String :=
  (ps.map Participant.id).reverse ++ declared

theorem idsAfter_cons (p : Participant) (ps : List Participant) (declared : List String) :
    idsAfter (p :: ps) declared = idsAfter ps (p.id :: declared) := by
  simp [idsAfter]

/-- Which participants are declared inside a box that lists some ids: in the order of the ids,
those that are not created and have not been declared. -/
structure Inside (m : Diagram) (ids declared : List String) (inside : List Participant) : Prop where
  listed : (inside.map Participant.id).Sublist ids
  members : ∀ p ∈ inside, p ∈ m.participants ∧ m.creates p.id = false
  nodup : declared.Nodup → (idsAfter inside declared).Nodup
  all : ∀ p ∈ m.participants, p.id ∈ ids → m.creates p.id = false → p.id ∈ idsAfter inside declared

namespace Inside

variable {ids declared : List String} {inside : List Participant}

theorem skip {id : String} (h : m.Inside ids declared inside)
    (hid : ∀ p ∈ m.participants, p.id = id → m.creates p.id = false → p.id ∈ declared) :
    m.Inside (id :: ids) declared inside where
  listed := h.listed.cons id
  members := h.members
  nodup := h.nodup
  all := by
    intro p hp hpid hc
    rcases List.mem_cons.1 hpid with hpid | hpid
    · exact List.mem_append_right _ (hid p hp hpid hc)
    · exact h.all p hp hpid hc

theorem cons {p : Participant} (h : m.Inside ids (p.id :: declared) inside) (hp : p ∈ m.participants)
    (hc : m.creates p.id = false) (hd : p.id ∉ declared) : m.Inside (p.id :: ids) declared (p :: inside) where
  listed := h.listed.cons_cons p.id
  members := List.forall_mem_cons.2 ⟨⟨hp, hc⟩, h.members⟩
  nodup := fun hn => idsAfter_cons p inside declared ▸ h.nodup (List.nodup_cons.2 ⟨hd, hn⟩)
  all := by
    intro q hq hqid hqc
    rw [idsAfter_cons]
    rcases List.mem_cons.1 hqid with hqid | hqid
    · exact List.mem_append_right _ (hqid ▸ List.mem_cons_self)
    · exact h.all q hq hqid hqc

/-- A participant that had not been declared before the box stands in it. -/
theorem mem_ids (h : m.Inside ids declared inside) {p : Participant} (hp : p ∈ m.participants) (hid : p.id ∈ ids)
    (hc : m.creates p.id = false) (hd : p.id ∉ declared) : p.id ∈ inside.map Participant.id :=
  (List.mem_append.1 (h.all p hp hid hc)).elim List.mem_reverse.1 fun hm => absurd hm hd

end Inside

theorem memberLines_inside (m : Diagram) (ids declared : List String) : ∃ inside, m.Inside ids declared inside ∧
    m.memberLines ids declared = (inside.map fun p => ⟨2, p.declarationLine⟩, idsAfter inside declared) := by
  induction ids generalizing declared with
  | nil => exact ⟨[], ⟨.slnil, by simp, fun h => h, by simp⟩, rfl⟩
  | cons id ids ih =>
    unfold memberLines
    cases hp : m.participant? id with
    | none =>
      obtain ⟨inside, hin, he⟩ := ih declared
      refine ⟨inside, hin.skip fun p hpm hid => ?_, he⟩
      have := List.find?_eq_none.1 hp p hpm
      simp [hid] at this
    | some q =>
      have hqm : q ∈ m.participants := List.mem_of_find?_eq_some hp
      obtain rfl : q.id = id := by simpa using List.find?_some hp
      dsimp only
      split
      · rename_i hskip
        obtain ⟨inside, hin, he⟩ := ih declared
        refine ⟨inside, hin.skip fun p _ hid hc => ?_, he⟩
        rw [hid] at hc ⊢
        have hc' : m.createdIds.contains q.id = false := hc
        rwa [hc', Bool.false_or, List.contains_iff_mem] at hskip
      · rename_i hnew
        obtain ⟨inside, hin, he⟩ := ih (q.id :: declared)
        obtain ⟨hc, hd⟩ : m.creates q.id = false ∧ q.id ∉ declared := by simpa [creates] using hnew
        exact ⟨q :: inside, hin.cons hqm hc hd, by rw [he, idsAfter_cons]; rfl⟩

/-- A box is drawn with participants inside. -/
theorem boxLines_inside (m : Diagram) (place : Nat) (box : Box) (declared : List String) :
    ∃ inside, m.Inside box.members declared inside ∧
      m.boxLines box declared = ((Part.boxed place box inside).lines, idsAfter inside declared) := by
  obtain ⟨inside, hin, he⟩ := m.memberLines_inside box.members declared
  exact ⟨inside, hin, by simp only [boxLines, he, Part.lines]⟩

/-- A box of whose participants none is left to be declared is drawn empty. -/
theorem boxLines_done {box : Box} {declared : List String} (hn : declared.Nodup)
    (hdone : ∀ p ∈ m.participants, p.id ∈ box.members → m.creates p.id = false → p.id ∈ declared) (place : Nat) :
    m.boxLines box declared = ((Part.empty (box, place)).lines, declared) := by
  obtain ⟨inside, hin, he⟩ := m.boxLines_inside place box declared
  have hnone : inside = [] := by
    refine List.eq_nil_iff_forall_not_mem.2 fun p hp => ?_
    obtain ⟨hpm, hc⟩ := hin.members p hp
    have hid : p.id ∈ inside.map Participant.id := List.mem_map_of_mem hp
    exact (List.nodup_append.1 (hin.nodup hn)).2.2 p.id (List.mem_reverse.2 hid) p.id
      (hdone p hpm (hin.listed.subset hid) hc) rfl
  subst hnone
  exact he

/-! ## The run of the writer -/

/-- What some parts declare, latest first, behind what has been declared before. -/
def declaredAfter (parts : List Part) (declared : List String) : List String :=
  idsAfter (parts.flatMap Part.declared) declared

/-- The places of the boxes that some parts draw, latest first, behind those drawn before. -/
def drawnAfter (parts : List Part) (drawn : List Nat) : List Nat :=
  ((parts.filterMap Part.box?).map Prod.snd).reverse ++ drawn

@[simp] theorem declaredAfter_cons (part : Part) (parts : List Part) (declared : List String) :
    declaredAfter (part :: parts) declared = declaredAfter parts (idsAfter part.declared declared) := by
  simp [declaredAfter, idsAfter]

@[simp] theorem drawnAfter_alone (p : Participant) (parts : List Part) (drawn : List Nat) :
    drawnAfter (.alone p :: parts) drawn = drawnAfter parts drawn := rfl

@[simp] theorem drawnAfter_boxed (place : Nat) (box : Box) (inside : List Participant) (parts : List Part)
    (drawn : List Nat) : drawnAfter (.boxed place box inside :: parts) drawn = drawnAfter parts (place :: drawn) := by
  simp [drawnAfter, Part.box?]

/-- How participants in order are drawn as parts, after some ids have been declared and some
boxes drawn. -/
inductive Draws (m : Diagram) (layout : Layout) :
    List Participant → List String → List Nat → List Part → Prop
  /-- No participant is left. -/
  | nil {declared drawn} : Draws m layout [] declared drawn []
  /-- One that has been declared, or is created by the timeline, is passed over. -/
  | skip {p ps declared drawn parts} (h : p.id ∈ declared ∨ m.creates p.id = true)
      (rest : Draws m layout ps declared drawn parts) : Draws m layout (p :: ps) declared drawn parts
  /-- One that is only mentioned and stands outside all boxes may be passed over as well. -/
  | hide {p ps declared drawn parts} (hc : m.creates p.id = false) (hb : m.boxOf? p.id = none)
      (he : (p.explicit || layout.declareImplicit) = false) (rest : Draws m layout ps declared drawn parts) :
      Draws m layout (p :: ps) declared drawn parts
  /-- The box of a participant is drawn around it, and around others that the box lists. -/
  | box {p ps declared drawn parts place box inside} (hd : p.id ∉ declared) (hc : m.creates p.id = false)
      (hb : m.boxOf? p.id = some (place, box)) (hin : m.Inside box.members declared inside)
      (rest : Draws m layout ps (idsAfter inside declared) (place :: drawn) parts) :
      Draws m layout (p :: ps) declared drawn (.boxed place box inside :: parts)
  /-- A participant stands alone. -/
  | alone {p ps declared drawn parts} (hd : p.id ∉ declared) (hc : m.creates p.id = false) (hb : m.boxOf? p.id = none)
      (he : (p.explicit || layout.declareImplicit) = true)
      (rest : Draws m layout ps (p.id :: declared) drawn parts) :
      Draws m layout (p :: ps) declared drawn (.alone p :: parts)

/-- The lines of participants are those of the parts that they are drawn as. -/
theorem columnLines_draws (m : Diagram) (layout : Layout) (ps : List Participant) (declared : List String)
    (drawn : List Nat) : ∃ parts, m.Draws layout ps declared drawn parts ∧
      m.columnLines layout ps declared drawn =
        (parts.flatMap Part.lines, declaredAfter parts declared, drawnAfter parts drawn) := by
  induction ps generalizing declared drawn with
  | nil => exact ⟨[], .nil, rfl⟩
  | cons p ps ih =>
    unfold columnLines
    split
    · rename_i hskip
      obtain ⟨parts, hd, he⟩ := ih declared drawn
      exact ⟨parts, hd.skip (by simpa [creates] using hskip), he⟩
    · rename_i hnew
      obtain ⟨hundeclared, hc⟩ : p.id ∉ declared ∧ m.creates p.id = false := by simpa [creates] using hnew
      split
      · rename_i place box hb
        obtain ⟨inside, hin, hlines⟩ := m.boxLines_inside place box declared
        obtain ⟨parts, hd, he⟩ := ih (idsAfter inside declared) (place :: drawn)
        refine ⟨.boxed place box inside :: parts, hd.box hundeclared hc hb hin, ?_⟩
        simp only [hlines, he, List.flatMap_cons, declaredAfter_cons, drawnAfter_boxed, Part.declared]
      · rename_i hb
        split
        · rename_i himplicit
          obtain ⟨parts, hd, he⟩ := ih declared drawn
          exact ⟨parts, hd.hide hc hb (by simpa using himplicit), he⟩
        · rename_i hdeclare
          obtain ⟨parts, hd, he⟩ := ih (p.id :: declared) drawn
          refine ⟨.alone p :: parts, hd.alone hundeclared hc hb ?_, ?_⟩
          · cases hx : p.explicit <;> simp_all
          · simp only [he, List.flatMap_cons, declaredAfter_cons, drawnAfter_alone, Part.lines, Part.declared, idsAfter,
              List.map_cons, List.map_nil, List.reverse_singleton, List.singleton_append]

/-! ## What the run keeps -/

/-- What has been declared and drawn so far: nothing twice, and of the boxes that are drawn every
participant that is not created. -/
structure Progress (m : Diagram) (declared : List String) (drawn : List Nat) : Prop where
  ids : declared.Nodup
  places : drawn.Nodup
  boxes : ∀ i ∈ drawn, ∀ b, m.boxes[i]? = some b → ∀ p ∈ m.participants, p.id ∈ b.members → m.creates p.id = false →
    p.id ∈ declared

namespace Progress

variable {declared : List String} {drawn : List Nat}

theorem nil (m : Diagram) : m.Progress [] [] :=
  ⟨List.nodup_nil, List.nodup_nil, by simp⟩

theorem box (h : m.Progress declared drawn) {place : Nat} {box : Box} (hb : m.boxes[place]? = some box)
    (hplace : place ∉ drawn) {inside : List Participant} (hin : m.Inside box.members declared inside) :
    m.Progress (idsAfter inside declared) (place :: drawn) where
  ids := hin.nodup h.ids
  places := List.nodup_cons.2 ⟨hplace, h.places⟩
  boxes := by
    intro i hi b hib p hp hid hc
    rcases List.mem_cons.1 hi with rfl | hi
    · obtain rfl := Option.some.inj (hb.symm.trans hib)
      exact hin.all p hp hid hc
    · exact List.mem_append_right _ (h.boxes i hi b hib p hp hid hc)

theorem alone (h : m.Progress declared drawn) {id : String} (hid : id ∉ declared) :
    m.Progress (id :: declared) drawn where
  ids := List.nodup_cons.2 ⟨hid, h.ids⟩
  places := h.places
  boxes := fun i hi b hb p hp hm hc => List.mem_cons_of_mem id (h.boxes i hi b hb p hp hm hc)

/-- The box of a participant that has not been declared has not been drawn. -/
theorem undrawn (h : m.Progress declared drawn) {p : Participant} (hp : p ∈ m.participants) (hd : p.id ∉ declared)
    (hc : m.creates p.id = false) {place : Nat} {box : Box} (hb : m.boxOf? p.id = some (place, box)) : place ∉ drawn :=
  fun hdrawn => hd (h.boxes place hdrawn box (mem_of_boxOf? hb).1 p hp (mem_of_boxOf? hb).2 hc)

end Progress

/-- What participants can be drawn as: one outside all boxes that is to be declared there, or a
box with some of the participants that it lists inside. -/
def Sound (m : Diagram) (layout : Layout) : Part → Prop
  | .alone p => p ∈ m.participants ∧ m.creates p.id = false ∧ m.boxOf? p.id = none ∧
      (p.explicit || layout.declareImplicit) = true
  | .boxed place box inside => m.boxes[place]? = some box ∧ inside ≠ [] ∧
      ∀ p ∈ inside, p ∈ m.participants ∧ m.creates p.id = false ∧ p.id ∈ box.members

namespace Draws

variable {ps : List Participant} {declared : List String} {drawn : List Nat} {parts : List Part}

theorem progress (h : m.Draws layout ps declared drawn parts) (hps : ∀ p ∈ ps, p ∈ m.participants)
    (hp : m.Progress declared drawn) : m.Progress (declaredAfter parts declared) (drawnAfter parts drawn) := by
  induction h with
  | nil => exact hp
  | skip _ _ ih | hide _ _ _ _ ih => exact ih (List.forall_mem_cons.1 hps).2 hp
  | box hd hc hb hin _ ih =>
    obtain ⟨hpm, hps⟩ := List.forall_mem_cons.1 hps
    rw [declaredAfter_cons, drawnAfter_boxed]
    exact ih hps (hp.box (mem_of_boxOf? hb).1 (hp.undrawn hpm hd hc hb) hin)
  | alone hd _ _ _ _ ih =>
    rw [declaredAfter_cons, drawnAfter_alone]
    exact ih (List.forall_mem_cons.1 hps).2 (hp.alone hd)

theorem sound (h : m.Draws layout ps declared drawn parts) (hps : ∀ p ∈ ps, p ∈ m.participants) :
    ∀ part ∈ parts, m.Sound layout part := by
  induction h with
  | nil => simp
  | skip _ _ ih | hide _ _ _ _ ih => exact ih (List.forall_mem_cons.1 hps).2
  | box hd hc hb hin _ ih =>
    obtain ⟨hpm, hps⟩ := List.forall_mem_cons.1 hps
    obtain ⟨hbox, hid⟩ := mem_of_boxOf? hb
    refine List.forall_mem_cons.2 ⟨⟨hbox, ?_, fun q hq => ?_⟩, ih hps⟩
    · rintro rfl
      exact List.not_mem_nil (hin.mem_ids hpm hid hc hd)
    · obtain ⟨hqm, hqc⟩ := hin.members q hq
      exact ⟨hqm, hqc, hin.listed.subset (List.mem_map_of_mem hq)⟩
  | alone _ hc hb he _ ih =>
    obtain ⟨hpm, hps⟩ := List.forall_mem_cons.1 hps
    exact List.forall_mem_cons.2 ⟨⟨hpm, hc, hb, he⟩, ih hps⟩

/-- Every participant that is in some box or is to be declared outside of boxes has been declared
in the end. -/
theorem due (h : m.Draws layout ps declared drawn parts) (hps : ∀ p ∈ ps, p ∈ m.participants) {p : Participant}
    (hp : p ∈ ps) (hc : m.creates p.id = false)
    (hdue : (m.boxOf? p.id).isSome = true ∨ (p.explicit || layout.declareImplicit) = true) :
    p.id ∈ declaredAfter parts declared := by
  have later : ∀ {parts : List Part} {declared : List String}, p.id ∈ declared → p.id ∈ declaredAfter parts declared :=
    fun hd => List.mem_append_right _ hd
  induction h with
  | nil => cases hp
  | skip hskip _ ih =>
    rcases List.mem_cons.1 hp with rfl | hp
    · exact later (hskip.resolve_right (Bool.eq_false_iff.1 hc))
    · exact ih (List.forall_mem_cons.1 hps).2 hp
  | hide _ hb he _ ih =>
    rcases List.mem_cons.1 hp with rfl | hp
    · simp [hb, he] at hdue
    · exact ih (List.forall_mem_cons.1 hps).2 hp
  | box hd _ hb hin _ ih =>
    obtain ⟨hpm, hps⟩ := List.forall_mem_cons.1 hps
    rw [declaredAfter_cons]
    rcases List.mem_cons.1 hp with rfl | hp
    · exact later (hin.all p hpm (mem_of_boxOf? hb).2 hc)
    · exact ih hps hp
  | alone _ _ _ _ _ ih =>
    rw [declaredAfter_cons]
    rcases List.mem_cons.1 hp with rfl | hp
    · exact later List.mem_cons_self
    · exact ih (List.forall_mem_cons.1 hps).2 hp

end Draws

/-! ## All declarations -/

/-- The boxes that are left when all their participants have been declared are drawn empty. -/
theorem leftoverLines_parts {declared : List String} (hn : declared.Nodup)
    (hdone : ∀ p ∈ m.participants, ∀ b ∈ m.boxes, p.id ∈ b.members → m.creates p.id = false → p.id ∈ declared)
    (drawn : List Nat) (boxes : List (Box × Nat)) (hb : ∀ e ∈ boxes, e.1 ∈ m.boxes) :
    m.leftoverLines drawn boxes declared =
      ((boxes.filter fun (_, place) => !drawn.contains place).map Part.empty).flatMap Part.lines := by
  induction boxes with
  | nil => rfl
  | cons e boxes ih =>
    obtain ⟨box, place⟩ := e
    obtain ⟨hbox, hb⟩ := List.forall_mem_cons.1 hb
    unfold leftoverLines
    cases hd : drawn.contains place with
    | true =>
      simp only [if_true, ih hb, List.filter_cons, hd, Bool.not_true, Bool.false_eq_true, if_false]
    | false =>
      have hlines := boxLines_done hn (fun p hp hid hc => hdone p hp box hbox hid hc) place
      simp only [Bool.false_eq_true, if_false, hlines, ih hb, List.filter_cons, hd, Bool.not_false, if_true, List.map_cons,
        List.flatMap_cons]

/-- The boxes that are not drawn by some parts, with their places. -/
def undrawn (m : Diagram) (parts : List Part) : List (Box × Nat) :=
  m.boxes.zipIdx.filter fun (_, place) => !(drawnAfter parts []).contains place

/-- The parts that the participants of a diagram are drawn as. -/
abbrev DrawnAs (m : Diagram) (layout : Layout) (parts : List Part) : Prop :=
  m.Draws layout m.participants [] [] parts

/-- The declarations are the lines of parts, and of empty boxes behind them. -/
theorem declarationLines_parts (m : Diagram) (layout : Layout) : ∃ parts, m.DrawnAs layout parts ∧
    m.declarationLines layout = (parts ++ (m.undrawn parts).map Part.empty).flatMap Part.lines := by
  obtain ⟨parts, hd, he⟩ := m.columnLines_draws layout m.participants [] []
  have hall : ∀ p ∈ m.participants, p ∈ m.participants := fun _ hp => hp
  have hdone : ∀ p ∈ m.participants, ∀ b ∈ m.boxes, p.id ∈ b.members → m.creates p.id = false →
      p.id ∈ declaredAfter parts [] := by
    intro p hp b hb hid hc
    refine hd.due hall hp hc (.inl (Option.isSome_iff_ne_none.2 fun hnone => ?_))
    exact not_mem_of_boxOf? hnone b hb hid
  refine ⟨parts, hd, ?_⟩
  simp only [declarationLines, he, List.flatMap_append]
  refine congrArg (parts.flatMap Part.lines ++ ·) ?_
  refine leftoverLines_parts (hd.progress hall (.nil m)).ids hdone _ _ fun e he => ?_
  exact List.mem_of_getElem? (List.mem_zipIdx_iff_getElem?.1 he)

namespace DrawnAs

variable {parts : List Part}

theorem sound (h : m.DrawnAs layout parts) : ∀ part ∈ parts, m.Sound layout part :=
  Draws.sound h fun _ hp => hp

theorem progress (h : m.DrawnAs layout parts) : m.Progress (declaredAfter parts []) (drawnAfter parts []) :=
  Draws.progress h (fun _ hp => hp) (.nil m)

/-- Nothing is declared twice. -/
theorem nodup (h : m.DrawnAs layout parts) : ((parts.flatMap Part.declared).map Participant.id).Nodup := by
  have := h.progress.ids
  rwa [declaredAfter, idsAfter, List.append_nil, (List.reverse_perm _).nodup_iff] at this

/-- The boxes that are drawn and those left over behind them are all boxes. -/
theorem boxes (h : m.DrawnAs layout parts) : (parts.filterMap Part.box? ++ m.undrawn parts).Perm m.boxes.zipIdx := by
  have hplaces : drawnAfter parts [] = ((parts.filterMap Part.box?).map Prod.snd).reverse := List.append_nil _
  have hn := h.progress.places
  rw [hplaces, (List.reverse_perm _).nodup_iff] at hn
  refine perm_zipIdx_of_places hn (fun e he => ?_) fun i => by simp only [hplaces, List.mem_reverse]
  obtain ⟨part, hpart, he⟩ := List.mem_filterMap.1 he
  have hs := h.sound part hpart
  cases part with
  | alone p => cases he
  | boxed place box inside =>
    obtain rfl := Option.some.inj he
    exact hs.1

/-- If participants have distinct ids, those are declared that are not created and are in some
box, or are to be declared outside of boxes. -/
theorem mem_declared (h : m.DrawnAs layout parts) (hn : m.participantIds.Nodup) {p : Participant} :
    p ∈ parts.flatMap Part.declared ↔ p ∈ m.participants ∧ m.creates p.id = false ∧
      ((m.boxOf? p.id).isSome = true ∨ (p.explicit || layout.declareImplicit) = true) := by
  have hsound : ∀ q ∈ parts.flatMap Part.declared, q ∈ m.participants ∧ m.creates q.id = false ∧
      ((m.boxOf? q.id).isSome = true ∨ (q.explicit || layout.declareImplicit) = true) := by
    intro q hq
    obtain ⟨part, hpart, hq⟩ := List.mem_flatMap.1 hq
    have hs := h.sound part hpart
    cases part with
    | alone r =>
      obtain rfl := List.mem_singleton.1 hq
      exact ⟨hs.1, hs.2.1, .inr hs.2.2.2⟩
    | boxed place box inside =>
      obtain ⟨hqm, hqc, hid⟩ := hs.2.2 q hq
      refine ⟨hqm, hqc, .inl (Option.isSome_iff_ne_none.2 fun hnone => ?_)⟩
      exact not_mem_of_boxOf? hnone box (List.mem_of_getElem? hs.1) hid
  refine ⟨hsound p, fun ⟨hp, hc, hdue⟩ => ?_⟩
  have hid := Draws.due h (fun _ hp => hp) hp hc hdue
  rw [declaredAfter, idsAfter, List.append_nil, List.mem_reverse, List.mem_map] at hid
  obtain ⟨q, hq, hid⟩ := hid
  exact List.inj_on_of_nodup_map hn (hsound q hq).1 hp hid ▸ hq

end DrawnAs

end Diagram

end Lifeline
