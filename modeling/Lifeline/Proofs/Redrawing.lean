import Lifeline.Proofs.Alike
/-!
# Columns that are drawn again

A text declares participants in the order of its columns. So a diagram that is read from it
has the same columns, with the boxes numbered as they were drawn, and the same declarations
(`Diagram.Redraws.declarationLines`).
-/

namespace Lifeline

open History

namespace Diagram

variable {m r : Diagram} {layout : Layout}

/-- A diagram with the columns of another, whose boxes and participants stand in the order
of these columns. -/
structure Redraws (layout : Layout) (m r : Diagram) : Prop where
  boxed : m.WellBoxed
  boxed' : r.WellBoxed
  declared : layout.declareImplicit = true
  creates : ∀ id, r.creates id = m.creates id
  participant? : ∀ id, r.participant? id = (m.participant? id).map (relisted layout)
  participants : (r.participants.filter fun p => !r.creates p.id) =
    ((m.allColumns layout).flatMap m.columnMembers).map (relisted layout)
  boxes : r.boxes = ((m.allColumns layout).filterMap boxAt?).map fun e => m.redrawn e.1
  headings : ∀ b ∈ m.boxes, (m.redrawn b).headingLine = b.headingLine

/-! ## The columns of participants in order -/

theorem columns_filter (ps : List Participant) (places : List Nat) :
    r.columns layout (ps.filter fun p => !r.creates p.id) places = r.columns layout ps places := by
  induction ps generalizing places with
  | nil => rfl
  | cons p ps ih =>
    cases hc : r.creates p.id with
    | true =>
      rw [List.filter_cons_of_neg (by simp [hc]), ih]
      simp only [columns, hc, if_true]
    | false =>
      rw [List.filter_cons_of_pos (by simp [hc])]
      simp only [columns, ih]

/-- Participants whose boxes have been drawn draw nothing. -/
theorem columns_skip {ps qs : List Participant} {places : List Nat}
    (h : ∀ p ∈ ps, ∃ i b, r.boxOf? p.id = some (i, b) ∧ i ∈ places) :
    r.columns layout (ps ++ qs) places = r.columns layout qs places := by
  induction ps with
  | nil => rfl
  | cons p ps ih =>
    obtain ⟨i, b, hb, hi⟩ := h p (by simp)
    have hi' : places.contains i = true := by simpa using hi
    have ih := ih fun q hq => h q (List.mem_cons_of_mem p hq)
    rw [List.cons_append, columns]
    split
    · exact ih
    · simp only [hb, hi', if_true, ih]

/-- The participants of a box that is not drawn yet draw it. -/
theorem columns_box {ps qs : List Participant} {places : List Nat} {place : Nat} {box : Box} (hne : ps ≠ [])
    (hnew : place ∉ places) (hcreates : ∀ p ∈ ps, r.creates p.id = false)
    (h : ∀ p ∈ ps, r.boxOf? p.id = some (place, box)) :
    r.columns layout (ps ++ qs) places =
      (.boxed place box :: (r.columns layout qs (place :: places)).1, (r.columns layout qs (place :: places)).2) := by
  obtain ⟨p, ps, rfl⟩ := List.exists_cons_of_ne_nil hne
  have hskip : r.columns layout (ps ++ qs) (place :: places) = r.columns layout qs (place :: places) :=
    columns_skip fun q hq => ⟨place, box, h q (List.mem_cons_of_mem p hq), by simp⟩
  have hnew' : places.contains place = false := by simpa using hnew
  rw [List.cons_append, columns]
  simp only [hcreates p (by simp), h p (by simp), hnew', Bool.false_eq_true, if_false, hskip]

namespace Redraws

theorem drawn (h : Redraws layout m r) (box : Box) : r.drawn (m.redrawn box) = (m.drawn box).map (relisted layout) := by
  have hp : r.participant? = fun id => (m.participant? id).map (relisted layout) := funext h.participant?
  simp only [Diagram.drawn, redrawn, h.creates, List.filter_filter, Bool.and_self, hp, List.map_filterMap]

/-- A box that is drawn again has the same lines. -/
theorem columnText_redrawn (h : Redraws layout m r) {box : Box} (hb : box ∈ m.boxes) (place place' : Nat) :
    r.columnText (.boxed place' (m.redrawn box)) = m.columnText (.boxed place box) := by
  simp only [columnText, h.headings box hb, h.drawn, List.map_map]
  rfl

/-- A participant that stands alone is in no box that is drawn again. -/
theorem boxOf?_alone (h : Redraws layout m r) {id : String} (hid : m.boxOf? id = none) : r.boxOf? id = none := by
  cases hr : r.boxOf? id with
  | none => rfl
  | some found =>
    obtain ⟨i, b⟩ := found
    obtain ⟨hb, hm⟩ := (boxOf?_eq_some h.boxed').1 hr
    rw [h.boxes] at hb
    obtain ⟨⟨box, place⟩, hbox, rfl⟩ := List.mem_map.1 (List.mem_of_getElem? hb)
    have hplace := List.mem_zipIdx_iff_getElem?.1 ((boxes_perm h.boxed layout).mem_iff.1 hbox)
    rw [(boxOf?_eq_some h.boxed).2 ⟨hplace, (List.mem_filter.1 hm).1⟩] at hid
    cases hid

/-- What is declared in a box is in the box that is drawn again. -/
theorem boxOf?_redrawn (h : Redraws layout m r) {box : Box} {place : Nat} (hat : r.boxes[place]? = some (m.redrawn box)) :
    ∀ p ∈ (m.drawn box).map (relisted layout), r.boxOf? p.id = some (place, m.redrawn box) := by
  intro q hq
  obtain ⟨p, hp, rfl⟩ := List.mem_map.1 hq
  obtain ⟨hid, hc, -⟩ := mem_drawn.1 hp
  exact (boxOf?_eq_some h.boxed').2 ⟨hat, List.mem_filter.2 ⟨hid, by simp [relisted, hc]⟩⟩

/-- Participants in the order of columns draw these columns. -/
theorem columns (h : Redraws layout m r) {cs : List Column} (hcs : ∀ c ∈ cs, c ∈ (m.columns layout m.participants []).1)
    {before after : List Box} (hb : r.boxes = before ++ ((cs.filterMap boxAt?).map fun e => m.redrawn e.1) ++ after)
    {places : List Nat} (hplaces : ∀ i, i ∈ places ↔ i < before.length) : ∃ cs' places',
      r.columns layout ((cs.flatMap m.columnMembers).map (relisted layout)) places = (cs', places') ∧
      cs'.flatMap r.columnText = cs.flatMap m.columnText ∧
      ∀ i, i ∈ places' ↔ i < before.length + (cs.filterMap boxAt?).length := by
  -- On the columns that are still to draw; `before` are the boxes drawn so far, at the first places.
  induction cs generalizing before places with
  | nil => exact ⟨[], places, rfl, rfl, hplaces⟩
  | cons c cs ih =>
    have hc := hcs c (by simp)
    have hcs' : ∀ c ∈ cs, c ∈ (m.columns layout m.participants []).1 := fun c' hc' => hcs c' (List.mem_cons_of_mem c hc')
    have hcreates : ∀ p ∈ m.columnMembers c, r.creates p.id = false := fun p hp =>
      (h.creates p.id).trans ((mem_columnMembers h.boxed layout).1 ⟨c, List.mem_append_left _ hc, hp⟩).2.1
    rcases mem_columns h.boxed layout hc with ⟨place, box, rfl, hbox⟩ | ⟨p, -, rfl, halone⟩
    · rw [List.filterMap_cons_some (boxAt?_boxed place box), List.map_cons] at hb
      have hat : r.boxes[before.length]? = some (m.redrawn box) := by
        rw [hb]
        simp
      have hplaces' : ∀ i, i ∈ before.length :: places ↔ i < (before ++ [m.redrawn box]).length := by
        intro i
        rw [List.mem_cons, hplaces, List.length_append, List.length_singleton]
        omega
      have hb' : r.boxes = (before ++ [m.redrawn box]) ++ ((cs.filterMap boxAt?).map fun e => m.redrawn e.1) ++ after := by
        simpa using hb
      obtain ⟨cs', places', hrest, htext, hmem⟩ := ih hcs' hb' hplaces'
      have hne : (m.drawn box).map (relisted layout) ≠ [] := by
        simpa [columnMembers] using columnMembers_ne_nil h.boxed layout _ hc
      have hdraw : r.columns layout ((m.drawn box).map (relisted layout) ++ (cs.flatMap m.columnMembers).map (relisted layout))
          places = _ :=
        columns_box hne (fun hm => Nat.lt_irrefl _ ((hplaces _).1 hm)) (by simpa [relisted, columnMembers] using hcreates)
          (h.boxOf?_redrawn hat)
      refine ⟨.boxed before.length (m.redrawn box) :: cs', places', ?_, ?_, fun i => ?_⟩
      · rw [List.flatMap_cons, List.map_append]
        exact hdraw.trans (by rw [hrest])
      · rw [List.flatMap_cons, List.flatMap_cons, htext, h.columnText_redrawn (List.mem_of_getElem? hbox) place]
      · rw [hmem, List.filterMap_cons_some (boxAt?_boxed place box), List.length_append, List.length_cons]
        simp only [List.length_cons, List.length_nil]
        omega
    · rw [List.filterMap_cons_none (boxAt?_alone p)] at hb ⊢
      obtain ⟨cs', places', hrest, htext, hmem⟩ := ih hcs' hb hplaces
      have hcreates := hcreates p (List.mem_singleton_self p)
      refine ⟨.alone (relisted layout p) :: cs', places', ?_, ?_, hmem⟩
      · rw [List.flatMap_cons, List.map_append]
        simp only [columnMembers, List.map_cons, List.map_nil, List.singleton_append, Diagram.columns]
        simp only [show (relisted layout p).id = p.id from rfl, hcreates, h.boxOf?_alone halone, h.declared, Bool.not_true,
          Bool.and_false, Bool.false_eq_true, if_false, hrest]
      · rw [List.flatMap_cons, List.flatMap_cons, htext]
        rfl

/-- The boxes that come after others are drawn last. -/
theorem flatMap_leftover {bs : List Box} {n : Nat} {places : List Nat} (h : ∀ i, i ∈ places ↔ i < n) (k : Nat) :
    ((bs.zipIdx k).filter fun e => !places.contains e.2).flatMap (fun e => r.columnText (.boxed e.2 e.1)) =
      (bs.drop (n - k)).flatMap fun b => r.columnText (.boxed 0 b) := by
  induction bs generalizing k with
  | nil => simp
  | cons b bs ih =>
    by_cases hk : k < n
    · have hin : k ∈ places := (h k).2 hk
      have hdrop : n - k = n - (k + 1) + 1 := by omega
      rw [List.zipIdx_cons, List.filter_cons_of_neg (by simp [hin]), ih, hdrop, List.drop_succ_cons]
    · have hout : k ∉ places := fun hm => hk ((h k).1 hm)
      have hdrop : n - k = 0 := by omega
      have hdrop' : n - (k + 1) = 0 := by omega
      rw [List.zipIdx_cons, List.filter_cons_of_pos (by simp [hout]), List.flatMap_cons, ih, hdrop, hdrop']
      rfl

/-- Boxes that are drawn again last have the lines that they had. -/
theorem leftover_lines (h : Redraws layout m r) :
    (((m.leftover layout).filterMap boxAt?).map fun e => m.redrawn e.1).flatMap (fun b => r.columnText (.boxed 0 b)) =
      (m.leftover layout).flatMap m.columnText := by
  rw [leftover, filterMap_boxAt?, List.flatMap_map, List.flatMap_map]
  refine List.flatMap_congr fun e he => ?_
  exact h.columnText_redrawn (List.mem_of_getElem? (List.mem_zipIdx_iff_getElem?.1 (List.mem_filter.1 he).1)) e.2 0

/-- A diagram that is read from a text has the declarations of the text. -/
theorem declarationLines (h : Redraws layout m r) : r.declarationLines layout = m.declarationLines layout := by
  have hboxes := h.boxes
  rw [allColumns_eq, List.filterMap_append, List.map_append] at hboxes
  have hstart : ∀ i, i ∈ ([] : List Nat) ↔ i < ([] : List Box).length := by simp
  obtain ⟨cs, places, hcols, htext, hplaces⟩ := h.columns (fun _ hc => hc) (hboxes.trans (by rw [List.nil_append])) hstart
  rw [← members_allColumns h.boxed, ← h.participants, columns_filter] at hcols
  have hleft : r.leftover layout = (r.boxes.zipIdx.filter fun e => !places.contains e.2).map fun e => .boxed e.2 e.1 := by
    rw [leftover, hcols]
  rw [declarationLines_eq h.boxed', declarationLines_eq h.boxed, allColumns_eq, allColumns_eq, List.flatMap_append,
    List.flatMap_append, hcols, hleft, List.flatMap_map, flatMap_leftover hplaces, hboxes, List.drop_left' (by simp)]
  exact congrArg₂ _ htext h.leftover_lines

end Redraws

end Diagram

end Lifeline
