import Lifeline.Proofs.Replay
/-!
# What the columns of a script leave

Every box is opened once, and what is declared before its end joins it. So the boxes are
those of the columns, each with the participants that are declared in it.
-/

namespace Lifeline

open History

/-- A box as it is drawn: with its heading as it is read, and the participants declared in
it. -/
def Diagram.redrawn (m : Diagram) (box : Box) : Box :=
  { label := box.readHeading.label, color := box.readHeading.color
    members := box.members.filter fun id => !m.creates id }

namespace Draft

theorem joinBox_outside {d : Draft} (hf : d.frames = []) (id : String) : d.joinBox id = d := by
  simp [joinBox, hf, Frames.box?]

theorem modify_last {α : Type} (xs : List α) (x : α) (change : α → α) :
    (xs ++ [x]).modify xs.length change = xs ++ [change x] := by
  induction xs with
  | nil => rfl
  | cons y xs ih => simp [List.modify_succ_cons, ih]

theorem joinBox_inside {d : Draft} {f : Frame Nat} {boxes : List Box} {box : Box} {id : String} (hf : d.frames = [f])
    (hbox : f.isBox = true) (hc : f.content = boxes.length) (hb : d.boxes = boxes ++ [box])
    (hnew : ∀ b ∈ d.boxes, id ∉ b.members) :
    d.joinBox id = { d with boxes := boxes ++ [{ box with members := box.members ++ [id] }] } := by
  have hany : (d.boxes.any fun b => b.members.contains id) = false := by
    simpa using hnew
  unfold joinBox
  simp only [hf, Frames.box?, List.find?_cons, hbox, hany, Bool.false_eq_true, if_false, hc]
  rw [hb, modify_last]

theorem steps_drawn {d d' : Draft} {ps : List Participant} {f : Frame Nat} {boxes : List Box} {box : Box}
    (hs : Steps d (ps.map fun p => .declare p.id p.kind p.label) d') (hf : d.frames = [f]) (hbox : f.isBox = true)
    (hc : f.content = boxes.length) (hb : d.boxes = boxes ++ [box]) (hn : (ps.map Participant.id).Nodup)
    (hnew : ∀ p ∈ ps, ∀ b ∈ d.boxes, p.id ∉ b.members) :
    Drawn d d' (boxes ++ [{ box with members := box.members ++ ps.map Participant.id }]) := by
  induction ps generalizing d box with
  | nil =>
    cases hs
    exact ⟨rfl, rfl, rfl, by simp [hb]⟩
  | cons p ps ih =>
    cases hs with
    | cons h hs =>
      cases h with
      | @declare _ _ _ r h =>
        have hfr : ({ d with roster := r } : Draft).frames = [f] := hf
        have hj := joinBox_inside hfr hbox hc hb (hnew p (by simp))
        rw [List.map_cons, List.nodup_cons] at hn
        rw [hj] at hs
        have hnew' : ∀ q ∈ ps, ∀ b ∈ boxes ++ [{ box with members := box.members ++ [p.id] }], q.id ∉ b.members := by
          intro q hq b hmem
          rcases List.mem_append.1 hmem with hmem | hmem
          · exact hnew q (List.mem_cons_of_mem p hq) b (by simp [hb, hmem])
          · obtain rfl := List.mem_singleton.1 hmem
            have hne : q.id ≠ p.id := fun he => hn.1 (he ▸ List.mem_map_of_mem hq)
            have := hnew q (List.mem_cons_of_mem p hq) box (by simp [hb])
            simp [this, hne]
        have hrest := ih hs hf rfl hn.2 hnew'
        exact ⟨hrest.past, hrest.frames, hrest.autonumber, by simpa using hrest.boxes⟩

end Draft

namespace Diagram

variable {m : Diagram} {past : List Statement}

theorem scriptEvents_drawn (ps : List Participant) (depth : Nat) :
    scriptEvents (ps.map fun p => (⟨depth, p.declarationLine⟩, p.declaration false)) =
      ps.map fun p => .declare p.id p.kind p.label := by
  simp only [scriptEvents, List.flatMap_map]
  exact List.flatMap_pure_eq_map _ _

/-- The events of a box open it, declare its members and close it. -/
theorem scriptEvents_boxed (place : Nat) (box : Box) : scriptEvents (m.columnScript (.boxed place box)) =
    .openBox box.readHeading :: (((m.drawn box).map fun p => .declare p.id p.kind p.label) ++ [.close]) := by
  rw [columnScript, scriptEvents_append]
  exact congrArg (fun es => Event.openBox box.readHeading :: es ++ [Event.close]) (scriptEvents_drawn _ _)

/-- The events of a column draw its box. -/
theorem replay_column {d d' : Draft} (h : m.WellBoxed) {c : Column} (hc : ∀ place box, c = .boxed place box → box ∈ m.boxes)
    (hs : Draft.Steps d (scriptEvents (m.columnScript c)) d') (hf : d.frames = [])
    (hnew : ∀ place box, c = .boxed place box → ∀ id ∈ box.members, ∀ b ∈ d.boxes, id ∉ b.members) :
    Draft.Drawn d d' (d.boxes ++ ((boxAt? c).map fun e => m.redrawn e.1).toList) := by
  cases c with
  | alone p =>
    cases Draft.Steps.single_iff.1 hs with
    | @declare _ _ _ r =>
      have hfr : ({ d with roster := r } : Draft).frames = [] := hf
      rw [Draft.joinBox_outside hfr]
      exact ⟨rfl, rfl, rfl, by simp⟩
  | boxed place box =>
    have hmem := hc place box rfl
    have hids := drawn_ids (h.known box hmem)
    rw [scriptEvents_boxed] at hs
    cases hs with
    | cons hopen hs =>
      obtain ⟨d2, hdecl, hclose⟩ := hs.split
      cases hopen with
      | openBox =>
        have hnew' : ∀ p ∈ m.drawn box, ∀ b ∈ d.boxes ++ [{ label := box.readHeading.label
                                                            color := box.readHeading.color }], p.id ∉ b.members := by
          intro p hp b hb
          rcases List.mem_append.1 hb with hb | hb
          · exact hnew place box rfl p.id (mem_drawn.1 hp).1 b hb
          · obtain rfl := List.mem_singleton.1 hb
            simp
        have hd := Draft.steps_drawn hdecl (congrArg _ hf) rfl rfl rfl (hids ▸ (h.distinct box hmem).filter _) hnew'
        have hf2 : d2.frames = { region := .box, line := _, content := d.boxes.length } :: d.frames := hd.frames
        have hb2 : d2.boxes = d.boxes ++ [m.redrawn box] := by simpa [redrawn, hids] using hd.boxes
        cases Draft.Steps.single_iff.1 hclose with
        | closeBox hfr =>
          obtain ⟨-, rfl⟩ := List.cons.inj (hf2.symm.trans hfr)
          exact ⟨hd.past, rfl, hd.autonumber, by simpa using hb2⟩
        | closeBlock hfr hblock =>
          obtain ⟨rfl, -⟩ := List.cons.inj (hf2.symm.trans hfr)
          cases hblock

/-- The events of columns draw their boxes in order. -/
theorem replay_columns {d d' : Draft} (h : m.WellBoxed) {cs : List Column}
    (hc : ∀ place box, .boxed place box ∈ cs → box ∈ m.boxes)
    (hpair : (cs.filterMap boxAt?).Pairwise fun e e' => ∀ id ∈ e'.1.members, id ∉ e.1.members)
    (hs : Draft.Steps d (scriptEvents (cs.flatMap m.columnScript)) d') (hf : d.frames = [])
    (hnew : ∀ place box, .boxed place box ∈ cs → ∀ id ∈ box.members, ∀ b ∈ d.boxes, id ∉ b.members) :
    Draft.Drawn d d' (d.boxes ++ (cs.filterMap boxAt?).map fun e => m.redrawn e.1) := by
  induction cs generalizing d with
  | nil =>
    cases hs
    exact ⟨rfl, rfl, rfl, by simp⟩
  | cons c cs ih =>
    rw [List.flatMap_cons, scriptEvents_append] at hs
    obtain ⟨d1, hs1, hs2⟩ := hs.split
    have h1 := replay_column h (fun place box he => hc place box (by simp [he])) hs1 hf fun place box he =>
      hnew place box (by simp [he])
    have hpair' : (cs.filterMap boxAt?).Pairwise fun e e' => ∀ id ∈ e'.1.members, id ∉ e.1.members :=
      hpair.sublist ((List.sublist_cons_self c cs).filterMap boxAt?)
    have hnew' : ∀ place box, .boxed place box ∈ cs → ∀ id ∈ box.members, ∀ b ∈ d1.boxes, id ∉ b.members := by
      intro place box hm id hid b hb
      rw [h1.boxes] at hb
      rcases List.mem_append.1 hb with hb | hb
      · exact hnew place box (List.mem_cons_of_mem c hm) id hid b hb
      · cases c with
        | alone p => simp at hb
        | boxed place' box' =>
          obtain rfl : b = m.redrawn box' := by simpa using hb
          have hlater : (box, place) ∈ cs.filterMap boxAt? := List.mem_filterMap.2 ⟨_, hm, rfl⟩
          rw [List.filterMap_cons_some (boxAt?_boxed place' box'), List.pairwise_cons] at hpair
          exact fun hmem => hpair.1 _ hlater id hid (List.mem_filter.1 hmem).1
    have h2 := ih (fun place box hm => hc place box (List.mem_cons_of_mem c hm)) hpair' hs2 (h1.frames.trans hf) hnew'
    refine ⟨h2.past.trans h1.past, h2.frames.trans h1.frames, h2.autonumber.trans h1.autonumber, ?_⟩
    rw [h2.boxes, h1.boxes]
    cases c <;> simp [List.filterMap_cons]

theorem pairwise_allColumns (h : m.WellBoxed) (layout : Layout) :
    ((m.allColumns layout).filterMap boxAt?).Pairwise fun e e' => ∀ id ∈ e'.1.members, id ∉ e.1.members := by
  have hperm := boxes_perm h layout
  have hzip : m.boxes.zipIdx.Nodup := by
    have : (m.boxes.zipIdx.map Prod.snd).Nodup := by
      rw [List.zipIdx_map_snd]
      exact List.nodup_range'
    exact this.of_map _
  refine (hperm.nodup_iff.2 hzip).pairwise_of_forall_ne fun e he e' he' hne id hid hid' => hne ?_
  have hb := List.mem_zipIdx_iff_getElem?.1 (hperm.mem_iff.1 he)
  have hb' := List.mem_zipIdx_iff_getElem?.1 (hperm.mem_iff.1 he')
  have hplace := h.once hb hb' hid' hid
  rw [hplace, hb'] at hb
  exact Prod.ext (Option.some.inj hb).symm hplace

theorem replay_links {d d' : Draft} {ps : List Participant}
    (hs : Draft.Steps d (scriptEvents (ps.flatMap fun p => p.linkScript 1)) d') : Draft.Drawn d d' d.boxes := by
  induction ps generalizing d with
  | nil =>
    cases hs
    exact ⟨rfl, rfl, rfl, rfl⟩
  | cons p ps ih =>
    rw [List.flatMap_cons, scriptEvents_append, scriptEvents_linkScript] at hs
    obtain ⟨d1, hs1, hs2⟩ := hs.split
    have h1 := Draft.Steps.drawn_links hs1
    exact h1.trans (h1.boxes ▸ ih hs2)

/-- What comes before the timeline draws the boxes and turns the numbering on. -/
theorem replay_head (h : m.WellBoxed) (layout : Layout) {d : Draft}
    (hs : Draft.Steps {} (scriptEvents (m.headScript layout)) d) :
    d.past = [] ∧ d.frames = [] ∧ d.autonumber = m.autonumber ∧
      d.boxes = ((m.allColumns layout).filterMap boxAt?).map fun e => m.redrawn e.1 := by
  rw [headScript, scriptEvents_append, scriptEvents_append] at hs
  obtain ⟨d2, hs, hlinks⟩ := hs.split
  obtain ⟨d1, hnumber, hcols⟩ := hs.split
  have h1 : d1.past = [] ∧ d1.frames = [] ∧ d1.autonumber = m.autonumber ∧ d1.boxes = [] := by
    cases ha : m.autonumber with
    | true =>
      rw [ha] at hnumber
      cases Draft.Steps.single_iff.1 hnumber with
      | number => exact ⟨rfl, rfl, rfl, rfl⟩
    | false =>
      rw [ha] at hnumber
      cases hnumber
      exact ⟨rfl, rfl, rfl, rfl⟩
  obtain ⟨hp, hf, ha, hb⟩ := h1
  have hmem : ∀ place box, .boxed place box ∈ m.allColumns layout → box ∈ m.boxes := by
    intro place box hc
    rcases mem_allColumns h hc with ⟨_, _, he, hb⟩ | ⟨_, _, he⟩
    · cases he
      exact List.mem_of_getElem? hb
    · cases he
  have h2 := replay_columns h hmem (pairwise_allColumns h layout) hcols hf (by simp [hb])
  have h3 := replay_links hlinks
  exact ⟨h3.past.trans (h2.past.trans hp), h3.frames.trans (h2.frames.trans hf),
    h3.autonumber.trans (h2.autonumber.trans ha), by rw [h3.boxes, h2.boxes, hb, List.nil_append]⟩

/-- The events of the script of a diagram in which nothing is open lead to its timeline,
boxes and numbering. -/
theorem Legible.replay (h : m.Legible past) (hsettled : Settled past) (hclosed : openAfter past = []) (layout : Layout)
    {r : Draft} (hs : Draft.Steps {} (scriptEvents (m.script layout past)) r) :
    r.past = past.map reread ∧ r.autonumber = m.autonumber ∧
      r.boxes = ((m.allColumns layout).filterMap boxAt?).map fun e => m.redrawn e.1 := by
  rw [script, hclosed, List.length_nil, closingScript, List.append_nil, scriptEvents_append] at hs
  obtain ⟨d, hhead, hpast⟩ := hs.split
  obtain ⟨hp, hf, ha, hb⟩ := replay_head h.boxed layout hhead
  have hboxless : d.Boxless := by simp [Draft.Boxless, hf]
  obtain ⟨hboxes, hauto, -⟩ := hpast.timed (pastScript_timed past)
  exact ⟨replay_past h.history h.items hsettled (fun x hx hk => (created_mem (h.known x hx hk)).2) hpast
    (hhead.aligned Draft.aligned_empty) hboxless hp, hauto.trans ha, hboxes.trans hb⟩

end Diagram

end Lifeline
