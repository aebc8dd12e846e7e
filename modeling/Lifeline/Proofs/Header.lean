import Lifeline.Proofs.Cast
/-!
# The declarations of any diagram

A diagram may have been built by hand: a participant may be in several boxes or twice in one,
and a box may list ids that no participant has. If the participants have distinct ids then the
text declares each of them once at most, and exactly those that it should, and it draws every
box once (`Diagram.declared_once`). The writer keeps a list of what it has declared and drawn;
its run keeps that a box that is drawn has all of its participants declared
(`Diagram.Draws.progress`).
-/

namespace Lifeline

/-- Whether a part declares inside a box only participants that the box lists, and outside all
boxes only one that none of them lists. -/
def Part.Fits (boxes : List Box) : Part → Prop
  | .alone p => ∀ b ∈ boxes, p.id ∉ b.members
  | .boxed _ box inside => ∀ p ∈ inside, p.id ∈ box.members

namespace Diagram

variable {m : Diagram} {layout : Layout}

/-- Whether a participant is to be declared before the timeline: the timeline does not create it,
and it is explicit, or in some box, or all participants are declared. -/
def isDue (m : Diagram) (layout : Layout) (p : Participant) : Bool :=
  !m.timeline.any (Statement.createsId p.id) &&
    (p.explicit || m.boxes.any (fun b => b.members.contains p.id) || layout.declareImplicit)

/-- A participant has a box if some box lists it. -/
theorem isSome_boxOf? (m : Diagram) (id : String) :
    (m.boxOf? id).isSome = m.boxes.any fun b => b.members.contains id := by
  rw [Bool.eq_iff_iff, List.any_eq_true]
  constructor
  · intro h
    obtain ⟨⟨place, box⟩, hb⟩ := Option.isSome_iff_exists.1 h
    obtain ⟨hbox, hid⟩ := mem_of_boxOf? hb
    exact ⟨box, List.mem_of_getElem? hbox, by simpa using hid⟩
  · rintro ⟨box, hbox, hid⟩
    refine Option.isSome_iff_ne_none.2 fun hnone => not_mem_of_boxOf? hnone box hbox ?_
    simpa using hid

theorem isDue_iff (m : Diagram) (layout : Layout) (p : Participant) : m.isDue layout p = true ↔ m.creates p.id = false ∧
    ((m.boxOf? p.id).isSome = true ∨ (p.explicit || layout.declareImplicit) = true) := by
  rw [isSome_boxOf?, isDue, creates_eq_any, Bool.and_eq_true, Bool.not_eq_true', Bool.or_right_comm, Bool.or_eq_true,
    or_comm]

theorem Sound.fits {part : Part} (h : m.Sound layout part) : part.Fits m.boxes := by
  cases part with
  | alone p => exact not_mem_of_boxOf? h.2.2.1
  | boxed place box inside => exact fun p hp => (h.2.2 p hp).2.2

/-- The participants that are due are declared, each once, if participants have distinct ids. -/
theorem DrawnAs.perm {parts : List Part} (hd : m.DrawnAs layout parts) (h : m.participantIds.Nodup) :
    (parts.flatMap Part.declared).Perm (m.participants.filter (m.isDue layout)) := by
  rw [List.perm_ext_iff_of_nodup (hd.nodup.of_map _) ((List.Nodup.of_map _ h).filter _)]
  intro p
  rw [hd.mem_declared h, List.mem_filter, isDue_iff]

/-! ## Main theorem -/

/-- In a diagram whose participants have distinct ids, however it was built, the declarations are
made up of participants that stand alone and of boxes with participants inside. Every box is
opened and closed once. The participants that are due are declared, each once: a participant
that some box lists inside a box that lists it, and any other one outside the boxes. The text has
these lines in front of the links and the timeline. -/
theorem declared_once (m : Diagram) (h : m.participantIds.Nodup) (layout : Layout) : ∃ parts : List Part,
    m.declarationLines layout = parts.flatMap Part.lines ∧
      (m.lines layout = (m.timelineLines [] m.timeline).map fun timeline =>
        ⟨0, headerWord⟩ :: (if m.autonumber then [⟨1, autonumberWord⟩] else []) ++ parts.flatMap Part.lines ++
          m.linkLines ++ timeline) ∧
      (parts.filterMap Part.box?).Perm m.boxes.zipIdx ∧
      (parts.flatMap Part.declared).Perm (m.participants.filter (m.isDue layout)) ∧
      ∀ part ∈ parts, part.Fits m.boxes := by
  obtain ⟨parts, hd, hlines⟩ := m.declarationLines_parts layout
  refine ⟨_, hlines, ?_, ?_, ?_, ?_⟩
  · rw [← hlines]
    rfl
  · rw [List.filterMap_append, Part.box?_empty]
    exact hd.boxes
  · rw [List.flatMap_append, Part.declared_empty, List.append_nil]
    exact hd.perm h
  · intro part hpart
    rcases List.mem_append.1 hpart with hpart | hpart
    · exact (hd.sound part hpart).fits
    · obtain ⟨e, -, rfl⟩ := List.mem_map.1 hpart
      exact List.forall_mem_nil _

/-- A participant that is in two boxes and twice in one of them, one that the timeline creates,
one that is in no box and only mentioned, and one that is in no box but explicit. -/
def overlapping : Diagram where
  participants := [{ id := "A" }, { id := "B", explicit := false }, { id := "C" }, { id := "D", explicit := false }, { id := "E" }]
  boxes := [{ label := some "Crew", members := ["B", "A", "C"] }, { members := ["A", "ghost", "A"] }, {}]
  timeline := [.directive { kind := .create, id := "C" }, .message { source := { id := "A" }, target := { id := "D" } }]

/-- Of the five participants three are due when only explicit ones are declared outside boxes. -/
theorem declared_once_overlapping : overlapping.participantIds.Nodup ∧ ∃ parts : List Part,
    overlapping.declarationLines { declareImplicit := false } = parts.flatMap Part.lines ∧
      (parts.filterMap Part.box?).Perm overlapping.boxes.zipIdx ∧
      ((parts.flatMap Part.declared).map Participant.id).Perm ["A", "B", "E"] ∧
      ∀ part ∈ parts, part.Fits overlapping.boxes := by
  have hn : overlapping.participantIds.Nodup := by decide
  obtain ⟨parts, hlines, -, hboxes, hdeclared, hfits⟩ := declared_once overlapping hn { declareImplicit := false }
  refine ⟨hn, parts, hlines, hboxes, (hdeclared.map Participant.id).trans ?_, hfits⟩
  rw [show (overlapping.participants.filter (overlapping.isDue { declareImplicit := false })).map Participant.id =
    ["A", "B", "E"] by decide]

end Diagram

end Lifeline
