import Lifeline.Proofs.Parts
/-!
# Columns

The declarations of a diagram are its columns in order: participants that stand alone,
and boxes with the participants in them. If no participant is in two boxes, every
participant that has a column has one, and every box is drawn once. Then a part of the
declarations is known from its column, and the run of the writer from the columns.
-/

namespace Lifeline

/-- A column that is declared on its own, or a box at its place. -/
inductive Column where
  | alone (p : Participant)
  | boxed (place : Nat) (box : Box)

namespace Diagram

/-- Participants are told apart by their ids, and each is in one box at most, once. -/
structure WellBoxed (m : Diagram) : Prop where
  nodup : m.participantIds.Nodup
  known : ∀ b ∈ m.boxes, ∀ id ∈ b.members, id ∈ m.participantIds
  distinct : ∀ b ∈ m.boxes, b.members.Nodup
  once : ∀ {i j : Nat} {b b' : Box} {id : String}, m.boxes[i]? = some b → m.boxes[j]? = some b' → id ∈ b.members →
    id ∈ b'.members → i = j

variable {m : Diagram} {layout : Layout}

/-- The participants that are declared inside a box. -/
def drawn (m : Diagram) (box : Box) : List Participant :=
  (box.members.filter fun id => !m.creates id).filterMap m.participant?

/-- The lines of a column. -/
def columnText (m : Diagram) : Column → List Line
  | .alone p => [⟨1, p.declarationLine⟩]
  | .boxed _ box => ⟨1, box.headingLine⟩ :: (m.drawn box).map (fun p => ⟨2, p.declarationLine⟩) ++ [⟨1, endWord⟩]

/-- The columns of participants in order, and the places of the boxes drawn after them. -/
def columns (m : Diagram) (layout : Layout) : List Participant → List Nat → List Column × List Nat
  | [], places => ([], places)
  | p :: ps, places =>
    if m.creates p.id then m.columns layout ps places
    else
      match m.boxOf? p.id with
      | some (place, box) =>
        if places.contains place then m.columns layout ps places
        else
          let (cs, places) := m.columns layout ps (place :: places)
          (.boxed place box :: cs, places)
      | none =>
        if !p.explicit && !layout.declareImplicit then m.columns layout ps places
        else
          let (cs, places) := m.columns layout ps places
          (.alone p :: cs, places)

/-- All columns; last come the boxes with no participant to declare. -/
def allColumns (m : Diagram) (layout : Layout) : List Column :=
  let (cs, places) := m.columns layout m.participants []
  cs ++ (m.boxes.zipIdx.filter fun (_, place) => !places.contains place).map fun (box, place) => .boxed place box

/-- The columns of the boxes that no participant is drawn in. -/
def leftover (m : Diagram) (layout : Layout) : List Column :=
  (m.boxes.zipIdx.filter fun (_, place) => !(m.columns layout m.participants []).2.contains place).map
    fun (box, place) => .boxed place box

theorem allColumns_eq (layout : Layout) :
    m.allColumns layout = (m.columns layout m.participants []).1 ++ m.leftover layout := rfl

/-- The participants that a column declares. -/
def columnMembers (m : Diagram) : Column → List Participant
  | .alone p => [p]
  | .boxed _ box => m.drawn box

/-- The box of a column, with its place. -/
def boxAt? : Column → Option (Box × Nat)
  | .alone _ => none
  | .boxed place box => some (box, place)

@[simp] theorem boxAt?_alone (p : Participant) : boxAt? (.alone p) = none := rfl

@[simp] theorem boxAt?_boxed (place : Nat) (box : Box) : boxAt? (.boxed place box) = some (box, place) := rfl

theorem filterMap_boxAt? (es : List (Box × Nat)) :
    (es.map fun (box, place) => Column.boxed place box).filterMap boxAt? = es := by
  rw [List.filterMap_map]
  exact List.filterMap_some

/-! ## Boxes of participants -/

/-- A box lists an id exactly if it is the box of the id. -/
theorem boxOf?_eq_some (h : m.WellBoxed) {id : String} {place : Nat} {box : Box} :
    m.boxOf? id = some (place, box) ↔ m.boxes[place]? = some box ∧ id ∈ box.members := by
  refine ⟨mem_of_boxOf?, fun ⟨hb, hid⟩ => ?_⟩
  cases hf : m.boxOf? id with
  | none => exact absurd hid (not_mem_of_boxOf? hf box (List.mem_of_getElem? hb))
  | some found =>
    obtain ⟨i, b⟩ := found
    obtain ⟨hi, hm⟩ := mem_of_boxOf? hf
    obtain rfl := h.once hi hb hm hid
    rw [hi] at hb
    rw [Option.some.inj hb]

theorem mem_drawn {box : Box} {p : Participant} :
    p ∈ m.drawn box ↔ p.id ∈ box.members ∧ m.creates p.id = false ∧ m.participant? p.id = some p := by
  simp only [drawn, List.mem_filterMap, List.mem_filter, Bool.not_eq_eq_eq_not, Bool.not_true]
  constructor
  · rintro ⟨id, ⟨hid, hc⟩, hp⟩
    have : p.id = id := by simpa using List.find?_some hp
    subst this
    exact ⟨hid, hc, hp⟩
  · rintro ⟨hid, hc, hp⟩
    exact ⟨p.id, ⟨hid, hc⟩, hp⟩

theorem drawn_ids {box : Box} (h : ∀ id ∈ box.members, id ∈ m.participantIds) :
    (m.drawn box).map Participant.id = box.members.filter fun id => !m.creates id := by
  have hk : ∀ id ∈ box.members.filter fun id => !m.creates id, id ∈ m.participantIds := fun id hid =>
    h id (List.mem_filter.1 hid).1
  unfold drawn
  generalize (box.members.filter fun id => !m.creates id) = ids at hk ⊢
  induction ids with
  | nil => rfl
  | cons id ids ih =>
    obtain ⟨p, -, hp, hid⟩ := participant?_isSome (hk id (by simp))
    simp [hp, hid, ih fun i hi => hk i (List.mem_cons_of_mem id hi)]

/-- In a box of which nothing has been declared, all are declared that it lists and that are not
created. -/
theorem Inside.eq_drawn (h : m.WellBoxed) {box : Box} (hb : box ∈ m.boxes) {declared : List String}
    {inside : List Participant} (hin : m.Inside box.members declared inside)
    (hnew : ∀ id ∈ box.members, m.creates id = false → id ∉ declared) : inside = m.drawn box := by
  have hids : inside.map Participant.id = box.members.filter fun id => !m.creates id := by
    -- Both lists have the same ids, and one is part of the other.
    have hkept : (inside.map Participant.id).filter (fun id => !m.creates id) = inside.map Participant.id := by
      rw [List.filter_eq_self]
      intro id hid
      obtain ⟨p, hp, rfl⟩ := List.mem_map.1 hid
      simp [(hin.members p hp).2]
    have hsub : (inside.map Participant.id).Sublist (box.members.filter fun id => !m.creates id) :=
      hkept ▸ hin.listed.filter _
    have hall : (box.members.filter fun id => !m.creates id) ⊆ inside.map Participant.id := by
      intro id hid
      obtain ⟨hid, hc⟩ := List.mem_filter.1 hid
      have hc : m.creates id = false := by simpa using hc
      obtain ⟨p, hp, -, rfl⟩ := participant?_isSome (h.known box hb id hid)
      exact hin.mem_ids hp hid hc (hnew p.id hid hc)
    exact hsub.eq_of_length_le (List.subperm_of_subset ((h.distinct box hb).filter _) hall).length_le
  rw [drawn, ← hids, List.filterMap_map]
  refine (List.filterMap_some.symm.trans (List.filterMap_congr fun p hp => ?_))
  exact (participant?_of_mem h.nodup (hin.members p hp).1).symm

/-! ## Columns as parts -/

/-- The part that a column is drawn as. -/
def part (m : Diagram) : Column → Part
  | .alone p => .alone p
  | .boxed place box => .boxed place box (m.drawn box)

theorem columnText_eq (m : Diagram) (c : Column) : m.columnText c = (m.part c).lines := by
  cases c <;> rfl

theorem declared_part (m : Diagram) (c : Column) : (m.part c).declared = m.columnMembers c := by
  cases c <;> rfl

theorem box?_part (m : Diagram) (c : Column) : (m.part c).box? = boxAt? c := by
  cases c <;> rfl

theorem flatMap_declared (m : Diagram) (cs : List Column) :
    (cs.map m.part).flatMap Part.declared = cs.flatMap m.columnMembers := by
  simp only [List.flatMap_map, declared_part]

theorem filterMap_box? (m : Diagram) (cs : List Column) : (cs.map m.part).filterMap Part.box? = cs.filterMap boxAt? := by
  rw [List.filterMap_map]
  exact List.filterMap_congr fun c _ => box?_part m c

theorem columns_places (layout : Layout) (ps : List Participant) (places : List Nat) :
    (m.columns layout ps places).2 =
      (((m.columns layout ps places).1.filterMap boxAt?).map Prod.snd).reverse ++ places := by
  induction ps generalizing places with
  | nil => rfl
  | cons p ps ih =>
    unfold columns
    split
    · exact ih places
    · split
      · split
        · exact ih places
        · dsimp only
          rw [ih]
          simp
      · split
        · exact ih places
        · dsimp only
          rw [ih]
          simp [List.filterMap_cons]

/-- What has been declared agrees with the boxes that have been drawn, and of the participants to
come none has been declared outside of boxes. -/
structure Ledger (m : Diagram) (ps : List Participant) (declared : List String) (places : List Nat) : Prop where
  boxed : ∀ id ∈ declared, ∀ {i b}, m.boxOf? id = some (i, b) → i ∈ places
  alone : ∀ id ∈ declared, m.boxOf? id = none → id ∉ ps.map Participant.id

namespace Ledger

variable {p : Participant} {ps : List Participant} {declared : List String} {places : List Nat}

theorem tail (hl : m.Ledger (p :: ps) declared places) : m.Ledger ps declared places :=
  ⟨hl.boxed, fun id hid hb hm => hl.alone id hid hb (List.mem_cons_of_mem _ hm)⟩

theorem addBox (hl : m.Ledger ps declared places) (h : m.WellBoxed) {place : Nat} {box : Box}
    (hb : m.boxes[place]? = some box) {inside : List Participant} (hin : ∀ p ∈ inside, p.id ∈ box.members) :
    m.Ledger ps (idsAfter inside declared) (place :: places) := by
  have hbox : ∀ id ∈ (inside.map Participant.id).reverse, m.boxOf? id = some (place, box) := by
    intro id hid
    obtain ⟨p, hp, rfl⟩ := List.mem_map.1 (List.mem_reverse.1 hid)
    exact (boxOf?_eq_some h).2 ⟨hb, hin p hp⟩
  constructor
  · intro id hid i b hi
    rcases List.mem_append.1 hid with hid | hid
    · rw [hbox id hid, Option.some.injEq, Prod.mk.injEq] at hi
      exact hi.1 ▸ List.mem_cons_self
    · exact List.mem_cons_of_mem _ (hl.boxed id hid hi)
  · intro id hid hnone
    rcases List.mem_append.1 hid with hid | hid
    · simp [hbox id hid] at hnone
    · exact hl.alone id hid hnone

theorem addAlone (hl : m.Ledger ps declared places) (hb : m.boxOf? p.id = none) (hp : p.id ∉ ps.map Participant.id) :
    m.Ledger ps (p.id :: declared) places := by
  constructor
  · intro id hid i b hi
    rcases List.mem_cons.1 hid with rfl | hid
    · simp [hb] at hi
    · exact hl.boxed id hid hi
  · intro id hid hnone
    rcases List.mem_cons.1 hid with rfl | hid
    · exact hp
    · exact hl.alone id hid hnone

end Ledger

/-- In a diagram whose participants are in one box at most, the parts are those of the columns. -/
theorem Draws.columns {ps : List Participant} {declared : List String} {places : List Nat} {parts : List Part}
    (hd : m.Draws layout ps declared places parts) (h : m.WellBoxed) (hps : ∀ p ∈ ps, p ∈ m.participants)
    (hn : (ps.map Participant.id).Nodup) (hp : m.Progress declared places) (hl : m.Ledger ps declared places) :
    parts = (m.columns layout ps places).1.map m.part := by
  induction hd with
  | nil => rfl
  | @skip p ps declared places parts hskip _ ih =>
    have ih := ih (List.forall_mem_cons.1 hps).2 (List.nodup_cons.1 hn).2 hp hl.tail
    rw [Diagram.columns]
    cases hc : m.creates p.id with
    | true => exact ih
    | false =>
      -- The participant has been declared, and that was in its box.
      have hdeclared : p.id ∈ declared := hskip.resolve_right (Bool.eq_false_iff.1 hc)
      cases hb : m.boxOf? p.id with
      | none => exact absurd List.mem_cons_self (hl.alone p.id hdeclared hb)
      | some found => simpa [hl.boxed p.id hdeclared hb] using ih
  | @hide p ps declared places parts hc hb he _ ih =>
    have ih := ih (List.forall_mem_cons.1 hps).2 (List.nodup_cons.1 hn).2 hp hl.tail
    rw [Bool.or_eq_false_iff] at he
    simpa [Diagram.columns, hc, hb, he.1, he.2] using ih
  | @box p ps declared places parts place box inside hundeclared hc hb hin _ ih =>
    obtain ⟨hpm, hps⟩ := List.forall_mem_cons.1 hps
    obtain ⟨hbox, -⟩ := mem_of_boxOf? hb
    have hplace : place ∉ places := hp.undrawn hpm hundeclared hc hb
    have hnew : ∀ id ∈ box.members, m.creates id = false → id ∉ declared := fun id hid _ hm =>
      hplace (hl.boxed id hm ((boxOf?_eq_some h).2 ⟨hbox, hid⟩))
    obtain rfl := hin.eq_drawn h (List.mem_of_getElem? hbox) hnew
    have ih := ih hps (List.nodup_cons.1 hn).2 (hp.box hbox hplace hin)
      (hl.tail.addBox h hbox fun p hp => (mem_drawn.1 hp).1)
    simp [Diagram.columns, hc, hb, hplace, ih, part]
  | @alone p ps declared places parts hundeclared hc hb he _ ih =>
    obtain ⟨hpn, hn⟩ := List.nodup_cons.1 hn
    have ih := ih (List.forall_mem_cons.1 hps).2 hn (hp.alone hundeclared) (hl.tail.addAlone hb hpn)
    have he' : (!p.explicit && !layout.declareImplicit) = false := by
      cases hx : p.explicit <;> simp_all
    simp [Diagram.columns, hc, hb, he', ih, part]

theorem DrawnAs.eq_columns {parts : List Part} (hd : m.DrawnAs layout parts) (h : m.WellBoxed) :
    parts = (m.columns layout m.participants []).1.map m.part :=
  Draws.columns hd h (fun _ hp => hp) h.nodup (.nil m) ⟨nofun, nofun⟩

/-- The participants of a diagram are drawn as its columns. -/
theorem columns_drawnAs (h : m.WellBoxed) (layout : Layout) :
    m.DrawnAs layout ((m.columns layout m.participants []).1.map m.part) := by
  obtain ⟨parts, hd, -⟩ := m.columnLines_draws layout m.participants [] []
  exact DrawnAs.eq_columns hd h ▸ hd

theorem undrawn_columns (m : Diagram) (layout : Layout) :
    (m.undrawn ((m.columns layout m.participants []).1.map m.part)).map (fun (box, place) => Column.boxed place box) =
      m.leftover layout := by
  rw [undrawn, drawnAfter, filterMap_box?, ← columns_places]
  rfl

/-! ## Which columns there are -/

theorem mem_columns (h : m.WellBoxed) (layout : Layout) {c : Column} (hc : c ∈ (m.columns layout m.participants []).1) :
    (∃ place box, c = .boxed place box ∧ m.boxes[place]? = some box) ∨
      ∃ p ∈ m.participants, c = .alone p ∧ m.boxOf? p.id = none := by
  have hs := (columns_drawnAs h layout).sound _ (List.mem_map_of_mem hc)
  cases c with
  | alone p => exact .inr ⟨p, hs.1, rfl, hs.2.2.1⟩
  | boxed place box => exact .inl ⟨place, box, rfl, hs.1⟩

/-- A column that is drawn for a participant declares it. -/
theorem columnMembers_ne_nil (h : m.WellBoxed) (layout : Layout) :
    ∀ c ∈ (m.columns layout m.participants []).1, m.columnMembers c ≠ [] := by
  intro c hc
  have hs := (columns_drawnAs h layout).sound _ (List.mem_map_of_mem hc)
  cases c with
  | alone p => exact List.cons_ne_nil p []
  | boxed place box => exact hs.2.1

/-- A box that is drawn last has no participant to declare. -/
theorem creates_of_leftover (h : m.WellBoxed) (layout : Layout) {box : Box} {place : Nat}
    (hb : m.boxes[place]? = some box) (hp : place ∉ (m.columns layout m.participants []).2) :
    ∀ id ∈ box.members, m.creates id = true := by
  intro id hid
  obtain ⟨p, hpm, -, rfl⟩ := participant?_isSome (h.known box (List.mem_of_getElem? hb) id hid)
  refine Bool.of_not_eq_false fun hc => hp ?_
  have hbox : m.boxOf? p.id = some (place, box) := (boxOf?_eq_some h).2 ⟨hb, hid⟩
  have hdeclared := ((columns_drawnAs h layout).mem_declared h.nodup).2 ⟨hpm, hc, .inl (by rw [hbox]; rfl)⟩
  rw [flatMap_declared] at hdeclared
  obtain ⟨c, hc, hpc⟩ := List.mem_flatMap.1 hdeclared
  -- The column that declares the participant is its box, which has been drawn.
  rcases mem_columns h layout hc with ⟨place', box', rfl, hb'⟩ | ⟨q, -, rfl, hq⟩
  · obtain rfl := h.once hb hb' hid (mem_drawn.1 hpc).1
    rw [columns_places, List.append_nil, List.mem_reverse]
    exact List.mem_map.2 ⟨_, List.mem_filterMap.2 ⟨_, hc, boxAt?_boxed place box'⟩, rfl⟩
  · obtain rfl := List.mem_singleton.1 hpc
    rw [hbox] at hq
    cases hq

theorem drawn_leftover (h : m.WellBoxed) (layout : Layout) {e : Box × Nat}
    (he : e ∈ m.boxes.zipIdx.filter fun (_, place) => !(m.columns layout m.participants []).2.contains place) :
    m.drawn e.1 = [] := by
  obtain ⟨hz, hp⟩ := List.mem_filter.1 he
  have hcreates := creates_of_leftover h layout (List.mem_zipIdx_iff_getElem?.1 hz) (by simpa using hp)
  have hnone : (e.1.members.filter fun id => !m.creates id) = [] :=
    List.filter_eq_nil_iff.2 fun id hid => by simp [hcreates id hid]
  rw [drawn, hnone, List.filterMap_nil]

/-- The declarations of a diagram are the lines of its columns. -/
theorem declarationLines_eq (h : m.WellBoxed) (layout : Layout) :
    m.declarationLines layout = (m.allColumns layout).flatMap m.columnText := by
  obtain ⟨parts, hd, he⟩ := m.declarationLines_parts layout
  obtain rfl := hd.eq_columns h
  have hleft : ((m.undrawn ((m.columns layout m.participants []).1.map m.part)).map Part.empty).flatMap Part.lines =
      (m.leftover layout).flatMap m.columnText := by
    rw [undrawn, drawnAfter, filterMap_box?, ← columns_places, leftover, List.flatMap_map, List.flatMap_map]
    refine List.flatMap_congr fun e hm => ?_
    rw [columnText_eq, part, drawn_leftover h layout hm]
    rfl
  rw [he, allColumns_eq, List.flatMap_append, List.flatMap_append, hleft, List.flatMap_map]
  exact congrArg (· ++ _) (List.flatMap_congr fun c _ => (m.columnText_eq c).symm)

/-- Every box is a column. -/
theorem boxes_perm (h : m.WellBoxed) (layout : Layout) :
    ((m.allColumns layout).filterMap boxAt?).Perm m.boxes.zipIdx := by
  have hboxes := (columns_drawnAs h layout).boxes
  rwa [filterMap_box?, ← filterMap_boxAt? (undrawn m _), undrawn_columns, ← List.filterMap_append] at hboxes

theorem columnMembers_leftover (h : m.WellBoxed) (layout : Layout) : ∀ c ∈ m.leftover layout, m.columnMembers c = [] := by
  intro c hc
  obtain ⟨e, he, rfl⟩ := List.mem_map.1 hc
  exact drawn_leftover h layout he

theorem members_allColumns (h : m.WellBoxed) (layout : Layout) :
    (m.allColumns layout).flatMap m.columnMembers = (m.columns layout m.participants []).1.flatMap m.columnMembers := by
  rw [allColumns_eq, List.flatMap_append, List.flatMap_eq_nil_iff.2 (columnMembers_leftover h layout), List.append_nil]

/-- The participants that are declared in columns. -/
theorem mem_columnMembers (h : m.WellBoxed) (layout : Layout) {p : Participant} :
    (∃ c ∈ m.allColumns layout, p ∈ m.columnMembers c) ↔ p ∈ m.participants ∧ m.creates p.id = false ∧
      ((m.boxOf? p.id).isSome = true ∨ (p.explicit || layout.declareImplicit) = true) := by
  rw [← List.mem_flatMap, members_allColumns h, ← flatMap_declared]
  exact (columns_drawnAs h layout).mem_declared h.nodup

/-- The participants that are declared in columns are declared once. -/
theorem nodup_members (h : m.WellBoxed) (layout : Layout) :
    (((m.allColumns layout).flatMap m.columnMembers).map Participant.id).Nodup := by
  rw [members_allColumns h, ← flatMap_declared]
  exact (columns_drawnAs h layout).nodup

end Diagram

end Lifeline
