import Mathlib.Data.List.Perm.Basic
import Lifeline.Proofs.Formatting
/-!
# The arrangement of columns

A text declares the participants column by column, a box with all that is declared in it, and
those that the timeline creates where they are created. So the diagram that is read from it may
have other places for its participants and boxes. It has the same ones if and only if the
diagram is laid out as its text (`Diagram.read_laidOut_iff`).
-/

namespace Lifeline

open History Text

namespace Diagram

variable {m : Diagram} {past : List Statement} {layout : Layout}

/-- The boxes in the order of their columns. -/
def columnBoxes (m : Diagram) (layout : Layout) : List Box := ((m.allColumns layout).filterMap boxAt?).map Prod.fst

/-- The box with what is declared in it. -/
def declaredIn (m : Diagram) (box : Box) : Box := { box with members := box.members.filter fun id => !m.creates id }

/-- A diagram whose participants and boxes stand in the order in which its text declares them. -/
structure LaidOut (m : Diagram) : Prop where
  /-- No participant of a box is created by the timeline. -/
  uncreated : ∀ b ∈ m.boxes, ∀ id ∈ b.members, m.creates id = false
  /-- The participants of a box stand side by side. -/
  together : ∀ b ∈ m.boxes, b.members <:+: m.participantIds
  /-- The boxes stand in the order of their participants. -/
  inOrder : (m.boxes.flatMap Box.members).Sublist m.participantIds
  /-- The boxes without participants come last. -/
  emptyLast : m.boxes = (m.boxes.filter fun b => !b.members.isEmpty) ++ m.boxes.filter fun b => b.members.isEmpty
  /-- The participants that the timeline creates come last, in the order in which it names them. -/
  created : m.participantIds = (m.timeline.flatMap Statement.names).foldl Roster.addName
    (m.participantIds.filter fun id => !m.creates id)

/-! ## What is read from a text -/

/-- What is read from a text has the boxes of the columns. -/
theorem Legible.boxes_script (h : m.Legible past) (hsettled : Settled past) (hclosed : openAfter past = [])
    (hplain : ∀ b ∈ m.boxes, b.IsPlain) {r : Draft} (hs : Draft.Steps {} (scriptEvents (m.script layout past)) r) :
    r.boxes = (m.columnBoxes layout).map m.declaredIn := by
  rw [(h.replay hsettled hclosed layout hs).2.2, columnBoxes, List.map_map]
  refine List.map_congr_left fun e he => ?_
  have hb : e.1 ∈ m.boxes :=
    List.mem_of_getElem? (List.mem_zipIdx_iff_getElem?.1 ((boxes_perm h.boxed layout).mem_iff.1 he))
  simp only [redrawn, Box.readHeading_eq (h.boxes e.1 hb).trimmed (hplain e.1 hb), Function.comp_apply, declaredIn]

/-! ## Columns and boxes -/

theorem columnBoxes_perm (h : m.WellBoxed) (layout : Layout) : (m.columnBoxes layout).Perm m.boxes := by
  have := (boxes_perm h layout).map Prod.fst
  rwa [List.zipIdx_map_fst] at this

/-- The participants of the boxes stand among those of the columns in the same order. -/
theorem members_sublist (cs : List Column) : ((cs.filterMap boxAt?).flatMap fun e => (m.drawn e.1).map Participant.id).Sublist
    ((cs.flatMap m.columnMembers).map Participant.id) := by
  induction cs with
  | nil => exact .slnil
  | cons c cs ih =>
    cases c with
    | alone p => exact ih.cons _
    | boxed place box =>
      simp only [List.filterMap_cons_some (boxAt?_boxed place box), List.flatMap_cons, List.map_append, columnMembers]
      exact ih.append_left _

/-- What is declared in a box that is all declared. -/
theorem drawn_ids_of_uncreated (h : m.WellBoxed) {box : Box} (hb : box ∈ m.boxes)
    (hu : ∀ id ∈ box.members, m.creates id = false) : (m.drawn box).map Participant.id = box.members := by
  rw [drawn_ids (h.known box hb), filter_uncreated hu]

/-- A box that participants draw has participants, and if none of these is created then all of
them are declared in it. -/
theorem box_of_columns (h : m.WellBoxed) (hu : ∀ b ∈ m.boxes, ∀ id ∈ b.members, m.creates id = false) {layout : Layout}
    {e : Box × Nat} (he : e ∈ (m.columns layout m.participants []).1.filterMap boxAt?) :
    e.1 ∈ m.boxes ∧ (m.drawn e.1).map Participant.id = e.1.members ∧ e.1.members ≠ [] := by
  obtain ⟨c, hc, he⟩ := List.mem_filterMap.1 he
  have hne := columnMembers_ne_nil h layout c hc
  rcases mem_columns h layout hc with ⟨place, box, rfl, hb⟩ | ⟨p, -, rfl, -⟩
  · obtain rfl := Option.some.inj he
    have hmem := List.mem_of_getElem? hb
    have hids := drawn_ids_of_uncreated h hmem (hu box hmem)
    refine ⟨hmem, hids, fun hnone => hne ?_⟩
    rw [hnone, List.map_eq_nil_iff] at hids
    exact hids
  · cases he

/-- If no boxed participant is created then the boxes that no participant draws are those without
participants. -/
theorem undrawn_iff (h : m.WellBoxed) (hu : ∀ b ∈ m.boxes, ∀ id ∈ b.members, m.creates id = false) (layout : Layout)
    {e : Box × Nat} (he : e ∈ m.boxes.zipIdx) : e.2 ∉ (m.columns layout m.participants []).2 ↔ e.1.members = [] := by
  have hbox := List.mem_zipIdx_iff_getElem?.1 he
  constructor
  · intro hp
    refine List.eq_nil_iff_forall_not_mem.2 fun id hid => ?_
    have := creates_of_leftover h layout hbox hp id hid
    rw [hu e.1 (List.mem_of_getElem? hbox) id hid] at this
    cases this
  · intro hnone
    rw [columns_places, List.append_nil, List.mem_reverse]
    intro hplace
    obtain ⟨e', he', hp⟩ := List.mem_map.1 hplace
    have hin : e' ∈ m.boxes.zipIdx := by
      refine (boxes_perm h layout).mem_iff.1 ?_
      rw [allColumns_eq, List.filterMap_append]
      exact List.mem_append_left _ he'
    have hbox' := List.mem_zipIdx_iff_getElem?.1 hin
    rw [hp, hbox] at hbox'
    exact (box_of_columns h hu he').2.2 (Option.some.inj hbox' ▸ hnone)

theorem boxes_leftover (h : m.WellBoxed) (hu : ∀ b ∈ m.boxes, ∀ id ∈ b.members, m.creates id = false) (layout : Layout) :
    ((m.leftover layout).filterMap boxAt?).map Prod.fst = m.boxes.filter fun b => b.members.isEmpty := by
  have hempty : ∀ e ∈ m.boxes.zipIdx, (!(m.columns layout m.participants []).2.contains e.2) = e.1.members.isEmpty := by
    intro e he
    rw [Bool.eq_iff_iff, List.isEmpty_iff, ← undrawn_iff h hu layout he]
    simp
  have hzip : m.boxes.zipIdx.map Prod.fst = m.boxes := List.zipIdx_map_fst 0 m.boxes
  rw [leftover, filterMap_boxAt?, List.filter_congr hempty]
  conv => rhs; rw [← hzip, List.filter_map]
  rfl

/-- If no boxed participant is created then the boxes that participants draw are those with
participants, and the other ones come last. -/
theorem columnBoxes_eq (h : m.WellBoxed) (hu : ∀ b ∈ m.boxes, ∀ id ∈ b.members, m.creates id = false) (layout : Layout) :
    ∃ full, m.columnBoxes layout = full ++ m.boxes.filter (fun b => b.members.isEmpty) ∧
      (∀ b ∈ full, b ∈ m.boxes ∧ b.members ≠ []) ∧ (full.flatMap Box.members).Sublist (m.columnIds layout) := by
  refine ⟨((m.columns layout m.participants []).1.filterMap boxAt?).map Prod.fst, ?_, ?_, ?_⟩
  · rw [columnBoxes, allColumns_eq, List.filterMap_append, List.map_append, boxes_leftover h hu]
  · intro b hb
    obtain ⟨e, he, rfl⟩ := List.mem_map.1 hb
    obtain ⟨hmem, -, hne⟩ := box_of_columns h hu he
    exact ⟨hmem, hne⟩
  · have hmembers : (((m.columns layout m.participants []).1.filterMap boxAt?).map Prod.fst).flatMap Box.members =
        ((m.columns layout m.participants []).1.filterMap boxAt?).flatMap fun e => (m.drawn e.1).map Participant.id := by
      rw [List.flatMap_map]
      exact List.flatMap_congr fun e he => (box_of_columns h hu he).2.1.symm
    rw [hmembers, columnIds, members_allColumns h]
    exact members_sublist _

theorem box_eq_of_mem (h : m.WellBoxed) {b c : Box} (hb : b ∈ m.boxes) (hc : c ∈ m.boxes) {id : String} (hid : id ∈ b.members)
    (hid' : id ∈ c.members) : b = c := by
  obtain ⟨i, hi⟩ := List.getElem?_of_mem hb
  obtain ⟨j, hj⟩ := List.getElem?_of_mem hc
  have hplace := h.once hi hj hid hid'
  rw [hplace, hj] at hi
  exact (Option.some.inj hi).symm

/-- Boxes with participants are told apart by the order of these. -/
theorem boxes_eq_of_members (h : m.WellBoxed) {bs cs : List Box} (hb : ∀ b ∈ bs, b ∈ m.boxes ∧ b.members ≠ [])
    (hc : ∀ c ∈ cs, c ∈ m.boxes ∧ c.members ≠ []) (he : bs.flatMap Box.members = cs.flatMap Box.members) : bs = cs := by
  induction bs generalizing cs with
  | nil =>
    cases cs with
    | nil => rfl
    | cons c cs => exact absurd (List.append_eq_nil_iff.1 he.symm).1 (hc c (by simp)).2
  | cons b bs ih =>
    cases cs with
    | nil => exact absurd (List.append_eq_nil_iff.1 he).1 (hb b (by simp)).2
    | cons c cs =>
      obtain ⟨hbm, hbne⟩ := hb b (by simp)
      obtain ⟨hcm, hcne⟩ := hc c (by simp)
      obtain ⟨id, rest, hid⟩ := List.exists_cons_of_ne_nil hbne
      obtain ⟨id', rest', hid'⟩ := List.exists_cons_of_ne_nil hcne
      simp only [List.flatMap_cons] at he
      have hfirst : id = id' := by
        rw [hid, hid'] at he
        exact (List.cons.inj he).1
      have hmem : id ∈ b.members := by simp [hid]
      have hmem' : id ∈ c.members := by simp [hid', hfirst]
      obtain rfl := box_eq_of_mem h hbm hcm hmem hmem'
      rw [ih (fun x hx => hb x (List.mem_cons_of_mem b hx)) (fun x hx => hc x (List.mem_cons_of_mem b hx))
        (List.append_cancel_left he)]

/-! ## Participants that stand side by side -/

end Diagram

/-- Elements that stand side by side, and that begin no earlier than the second of two lists,
begin with that list if they have its first element. -/
theorem prefix_of_together {α : Type} {xs ys zs : List α} {y : α} (hn : (y :: ys).Nodup) (h : zs <:+: xs ++ y :: ys)
    (hx : ∀ z ∈ zs, z ∉ xs) (hy : y ∈ zs) : zs <+: y :: ys := by
  obtain ⟨before, after, hsplit⟩ := h
  rw [List.append_assoc] at hsplit
  rcases List.append_eq_append_iff.1 hsplit with ⟨as, hxs, hzs⟩ | ⟨bs, hbefore, hys⟩
  · cases as with
    | nil => exact ⟨after, hzs⟩
    | cons a as =>
      obtain ⟨z, rest, rfl⟩ := List.exists_cons_of_ne_nil (List.ne_nil_of_mem hy)
      have hza : z = a := (List.cons.inj hzs).1
      exact absurd (by simp [hxs, hza]) (hx z (by simp))
  · cases bs with
    | nil => exact ⟨after, hys.symm⟩
    | cons b bs =>
      obtain ⟨rfl, hrest⟩ := List.cons.inj hys
      refine absurd ?_ (List.nodup_cons.1 hn).1
      rw [hrest]
      exact List.mem_append_right _ (List.mem_append_left _ hy)

namespace Diagram

variable {m : Diagram} {layout : Layout}

/-- Where the drawing of the columns stands: no box at one of the places has a participant that is
left, and no other box has one that is done. -/
structure Underway (m : Diagram) (done left : List Participant) (places : List Nat) : Prop where
  split : m.participants = done ++ left
  drawn : ∀ i b, m.boxes[i]? = some b → i ∈ places → ∀ id ∈ b.members, id ∉ left.map Participant.id
  untouched : ∀ i b, m.boxes[i]? = some b → i ∉ places → ∀ id ∈ b.members, id ∉ done.map Participant.id

namespace Underway

variable {done qs left : List Participant} {p : Participant} {places : List Nat}

/-- A participant that is in no box is done alone. -/
theorem pass (hu : m.Underway done (p :: left) places) (hp : ∀ b ∈ m.boxes, p.id ∉ b.members) :
    m.Underway (done ++ [p]) left places where
  split := by rw [hu.split, List.append_assoc, List.singleton_append]
  drawn := fun i b hb hi id hid hm => hu.drawn i b hb hi id hid (List.mem_cons_of_mem _ hm)
  untouched := by
    intro i b hb hi id hid hm
    rw [List.map_append, List.mem_append] at hm
    rcases hm with hm | hm
    · exact hu.untouched i b hb hi id hid hm
    · obtain rfl := List.mem_singleton.1 hm
      exact hp b (List.mem_of_getElem? hb) hid

/-- The participants of a box are done together. -/
theorem box (hu : m.Underway done (qs ++ left) places) (h : m.WellBoxed) {i : Nat} {b : Box} (hb : m.boxes[i]? = some b)
    (hqs : qs.map Participant.id = b.members) : m.Underway (done ++ qs) left (i :: places) where
  split := by rw [hu.split, List.append_assoc]
  drawn := by
    intro j c hc hj id hid hm
    rcases List.mem_cons.1 hj with rfl | hj
    · obtain rfl := Option.some.inj (hb.symm.trans hc)
      have hnodup := h.nodup
      rw [participantIds, hu.split, List.map_append, List.map_append, hqs] at hnodup
      exact (List.nodup_append.1 (List.nodup_append.1 hnodup).2.1).2.2 id hid id hm rfl
    · refine hu.drawn j c hc hj id hid ?_
      rw [List.map_append]
      exact List.mem_append_right _ hm
  untouched := by
    intro j c hc hj id hid hm
    rw [List.mem_cons, not_or] at hj
    rw [List.map_append, List.mem_append, hqs] at hm
    rcases hm with hm | hm
    · exact hu.untouched j c hc hj.2 id hid hm
    · exact hj.1 (h.once hc hb hid hm)

end Underway

/-- The participants that are left begin with those of the box of the first one. -/
theorem LaidOut.box_prefix (hl : m.LaidOut) (h : m.WellBoxed) {done left : List Participant} {p : Participant}
    {places : List Nat} (hu : m.Underway done (p :: left) places) {i : Nat} {b : Box} (hb : m.boxes[i]? = some b)
    (hid : p.id ∈ b.members) :
    i ∉ places ∧ ∃ qs left', p :: left = qs ++ left' ∧ qs.map Participant.id = b.members := by
  have hnew : i ∉ places := fun hi => hu.drawn i b hb hi p.id hid (by simp)
  have hids : m.participantIds = done.map Participant.id ++ p.id :: left.map Participant.id := by
    rw [participantIds, hu.split, List.map_append, List.map_cons]
  have hnodup := h.nodup
  have htogether := hl.together b (List.mem_of_getElem? hb)
  rw [hids] at hnodup htogether
  obtain ⟨after, hprefix⟩ := prefix_of_together (List.nodup_append.1 hnodup).2.1 htogether (hu.untouched i b hb hnew) hid
  obtain ⟨qs, left', hsplit, hqs, -⟩ := List.map_eq_append_iff.1
    (show (p :: left).map Participant.id = b.members ++ after from hprefix.symm)
  exact ⟨hnew, qs, left', hsplit, hqs⟩

/-- In a diagram that is laid out, the columns of the participants that are left have these in
order. -/
theorem LaidOut.ids_columns (hl : m.LaidOut) (h : m.WellBoxed) (hd : layout.declareImplicit = true)
    {done left : List Participant} {places : List Nat} (hu : m.Underway done left places) :
    ((m.columns layout left places).1.flatMap m.columnMembers).map Participant.id =
      (left.map Participant.id).filter fun id => !m.creates id := by
  induction hlen : left.length using Nat.strong_induction_on generalizing done left places with
  | _ n ih =>
  cases left with
  | nil => rfl
  | cons p left =>
    cases hc : m.creates p.id with
    | true =>
      -- No box has a participant that is created.
      have hnone : ∀ b ∈ m.boxes, p.id ∉ b.members := by
        intro b hb hid
        rw [hl.uncreated b hb p.id hid] at hc
        cases hc
      rw [List.map_cons, List.filter_cons_of_neg (by simp [hc]), ← ih left.length (by simp [← hlen]) (hu.pass hnone) rfl]
      simp only [columns, hc, if_true]
    | false =>
      cases hb : m.boxOf? p.id with
      | none =>
        rw [List.map_cons, List.filter_cons_of_pos (by simp [hc]),
          ← ih left.length (by simp [← hlen]) (hu.pass (not_mem_of_boxOf? hb)) rfl]
        simp [columns, hc, hb, hd, columnMembers]
      | some found =>
        obtain ⟨i, b⟩ := found
        obtain ⟨hbox, hid⟩ := (boxOf?_eq_some h).1 hb
        have hmem := List.mem_of_getElem? hbox
        obtain ⟨hnew, qs, left', hsplit, hqs⟩ := hl.box_prefix h hu hbox hid
        have hne : qs ≠ [] := by
          rintro rfl
          rw [← hqs] at hid
          cases hid
        have hshorter : left'.length < n := by
          have hlength := congrArg List.length hsplit
          have hpos := List.length_pos_iff.2 hne
          rw [List.length_append] at hlength
          omega
        have hcreates : ∀ q ∈ qs, m.creates q.id = false := fun q hq =>
          hl.uncreated b hmem q.id (hqs ▸ List.mem_map_of_mem hq)
        have hof : ∀ q ∈ qs, m.boxOf? q.id = some (i, b) := fun q hq =>
          (boxOf?_eq_some h).2 ⟨hbox, hqs ▸ List.mem_map_of_mem hq⟩
        rw [hsplit] at hu ⊢
        rw [columns_box hne hnew hcreates hof, List.flatMap_cons, List.map_append, ih left'.length hshorter (hu.box h hbox hqs) rfl,
          List.map_append, List.filter_append, columnMembers, drawn_ids_of_uncreated h hmem (hl.uncreated b hmem), hqs,
          filter_uncreated (hl.uncreated b hmem)]

/-- In a diagram that is laid out, the columns have the participants in order. -/
theorem LaidOut.columnIds_eq (hl : m.LaidOut) (h : m.WellBoxed) (hd : layout.declareImplicit = true) :
    m.columnIds layout = m.participantIds.filter fun id => !m.creates id := by
  have hstart : m.Underway [] m.participants [] := ⟨rfl, by simp, by simp⟩
  rw [columnIds, members_allColumns h, hl.ids_columns h hd hstart]
  rfl

/-! ## When the arrangement stays -/

theorem flatMap_members_nonempty (bs : List Box) :
    (bs.filter fun b => !b.members.isEmpty).flatMap Box.members = bs.flatMap Box.members := by
  induction bs with
  | nil => rfl
  | cons b bs ih =>
    cases hb : b.members with
    | nil => rw [List.filter_cons_of_neg (by simp [hb]), List.flatMap_cons, ih, hb, List.nil_append]
    | cons id rest => rw [List.filter_cons_of_pos (by simp [hb]), List.flatMap_cons, List.flatMap_cons, ih]

theorem flatMap_members_empty (bs : List Box) : (bs.filter fun b => b.members.isEmpty).flatMap Box.members = [] := by
  refine List.flatMap_eq_nil_iff.2 fun b hb => ?_
  exact List.isEmpty_iff.1 (List.mem_filter.1 hb).2

/-- A box of which nothing is created is declared as it is. -/
theorem map_declaredIn {bs : List Box} (hu : ∀ b ∈ bs, ∀ id ∈ b.members, m.creates id = false) : bs.map m.declaredIn = bs := by
  have hsame : ∀ b ∈ bs, m.declaredIn b = b := by
    intro b hb
    rw [declaredIn, filter_uncreated (hu b hb)]
  rw [List.map_congr_left hsame, List.map_id']

/-- In a diagram that is laid out, the columns have the boxes in order. -/
theorem LaidOut.columnBoxes_eq (hl : m.LaidOut) (h : m.WellBoxed) (hd : layout.declareImplicit = true) :
    m.columnBoxes layout = m.boxes := by
  obtain ⟨full, hboxes, hfull, hsub⟩ := Diagram.columnBoxes_eq h hl.uncreated layout
  have hnonempty : ∀ b ∈ m.boxes.filter (fun b => !b.members.isEmpty), b ∈ m.boxes ∧ b.members ≠ [] := by
    intro b hb
    obtain ⟨hb, hne⟩ := List.mem_filter.1 hb
    exact ⟨hb, by simpa using hne⟩
  have hperm : (full.flatMap Box.members).Perm (m.boxes.flatMap Box.members) := by
    have := (columnBoxes_perm h layout).flatMap_right Box.members
    rwa [hboxes, List.flatMap_append, flatMap_members_empty, List.append_nil] at this
  have hsub' : (full.flatMap Box.members).Sublist m.participantIds := by
    rw [hl.columnIds_eq h hd] at hsub
    exact hsub.trans List.filter_sublist
  have hmembers : full.flatMap Box.members = m.boxes.flatMap Box.members :=
    (List.Nodup.perm_iff_eq_of_sublist h.nodup hsub' hl.inOrder).1 hperm
  have hsame := boxes_eq_of_members h hfull hnonempty (hmembers.trans (flatMap_members_nonempty m.boxes).symm)
  rw [hboxes, hsame]
  exact hl.emptyLast.symm

/-- The members of a box stand side by side in the columns. -/
theorem members_together (h : m.WellBoxed) (hu : ∀ b ∈ m.boxes, ∀ id ∈ b.members, m.creates id = false) {b : Box}
    (hb : b ∈ m.boxes) : b.members <:+: m.columnIds layout := by
  obtain ⟨e, he, rfl⟩ := List.mem_map.1 ((columnBoxes_perm h layout).mem_iff.2 hb)
  obtain ⟨c, hc, hat⟩ := List.mem_filterMap.1 he
  obtain ⟨before, after, hsplit⟩ := List.append_of_mem hc
  cases c with
  | alone p => cases hat
  | boxed place box =>
    obtain rfl := Option.some.inj hat
    refine ⟨(before.flatMap m.columnMembers).map Participant.id, (after.flatMap m.columnMembers).map Participant.id, ?_⟩
    rw [columnIds, hsplit, List.flatMap_append, List.flatMap_cons, List.map_append, List.map_append, columnMembers,
      drawn_ids_of_uncreated h hb (hu box hb), List.append_assoc]

/-- A text declares the participants and the boxes of a diagram in their order if and only if the
diagram is laid out. -/
theorem laidOut_iff (h : m.WellBoxed) (hd : layout.declareImplicit = true)
    (hnamed : ∀ id ∈ m.timeline.flatMap Statement.names, id ∈ m.participantIds) :
    ((m.timeline.flatMap Statement.names).foldl Roster.addName (m.columnIds layout) = m.participantIds ∧
      (m.columnBoxes layout).map m.declaredIn = m.boxes) ↔ m.LaidOut := by
  constructor
  · rintro ⟨hids, hboxes⟩
    have huncreated : ∀ b ∈ m.boxes, ∀ id ∈ b.members, m.creates id = false := by
      intro b hb id hid
      rw [← hboxes] at hb
      obtain ⟨c, -, rfl⟩ := List.mem_map.1 hb
      simpa using (List.mem_filter.1 hid).2
    have hsame : m.columnBoxes layout = m.boxes := by
      rw [map_declaredIn fun b hb => huncreated b ((columnBoxes_perm h layout).mem_iff.1 hb)] at hboxes
      exact hboxes
    have hcolumns : m.columnIds layout = m.participantIds.filter fun id => !m.creates id := by
      rw [← hids]
      exact (filter_foldl_columnIds h hd hnamed).symm
    have hfirst : m.columnIds layout <+: m.participantIds := hids ▸ Roster.prefix_foldl_addName _ _
    obtain ⟨full, hsplit, hfull, hsub⟩ := Diagram.columnBoxes_eq h huncreated layout
    rw [hsame] at hsplit
    refine { uncreated := huncreated, together := ?_, inOrder := ?_, emptyLast := ?_, created := ?_ }
    · intro b hb
      exact (members_together h huncreated hb).trans hfirst.isInfix
    · have hmembers : m.boxes.flatMap Box.members = full.flatMap Box.members := by
        rw [hsplit, List.flatMap_append, flatMap_members_empty, List.append_nil]
      rw [hmembers]
      exact hsub.trans hfirst.sublist
    · have hnonempty : (m.boxes.filter fun b => !b.members.isEmpty) = full := by
        rw [hsplit, List.filter_append, List.filter_eq_self.2, List.filter_eq_nil_iff.2, List.append_nil]
        · intro b hb
          simp [(List.mem_filter.1 hb).2]
        · intro b hb
          simp [(hfull b hb).2]
      rw [hnonempty]
      exact hsplit
    · rw [← hcolumns, hids]
  · intro hl
    have hboxes := hl.columnBoxes_eq h hd
    refine ⟨?_, ?_⟩
    · rw [hl.columnIds_eq h hd]
      exact hl.created.symm
    · rw [hboxes, map_declaredIn hl.uncreated]

/-- Whether a diagram is laid out is told by its participants, its boxes, and what its timeline
names and creates. -/
theorem LaidOut.of_copies {m' : Diagram} (hl : m.LaidOut) (hc : Copies id m m')
    (hn : m'.timeline.flatMap Statement.names = m.timeline.flatMap Statement.names) : m'.LaidOut := by
  have hids : m'.participantIds = m.participantIds := by rw [participantIds, participantIds, hc.participants, List.map_id]
  have hcreates : m'.creates = m.creates := funext hc.creates
  refine { uncreated := ?_, together := ?_, inOrder := ?_, emptyLast := ?_, created := ?_ }
  · rw [hc.boxes, hcreates]
    exact hl.uncreated
  · rw [hc.boxes, hids]
    exact hl.together
  · rw [hc.boxes, hids]
    exact hl.inOrder
  · rw [hc.boxes]
    exact hl.emptyLast
  · rw [hids, hn, hcreates]
    exact hl.created

end Diagram

/-- The ends of blocks name nobody. -/
theorem Draft.Completes.names {d d' : Draft} {ends : List Statement} {m : Diagram} (h : d.Completes d' ends) (ha : d.Aligned)
    (ha' : d'.Aligned) (hm : m = { d.build with diagnostics := m.diagnostics }) :
    d'.build.timeline.flatMap Statement.names = m.timeline.flatMap Statement.names := by
  have hends : ends.reverse.flatMap Statement.names = [] := by
    refine List.flatMap_eq_nil_iff.2 fun e he => ?_
    have hend := h.onlyEnds e (List.mem_reverse.1 he)
    cases e <;> first | rfl | cases hend
  rw [Diagram.names_timeline (build_timeline ha'), Diagram.names_timeline (build_timeline_of_eq ha hm), h.past,
    List.reverse_append, List.flatMap_append, hends, List.append_nil]

namespace Diagram

variable {m : Diagram} {layout : Layout}

/-- A diagram that is read, and of which the lines do not run into each other, has its
participants and its boxes in the same order after it is written and read again if and only if
it is laid out. -/
theorem read_laidOut_iff {source : String} (hr : Diagram.read source false = .ok m) (hs : m.Separate m.timeline)
    (hd : layout.declareImplicit = true) : ∃ text again, m.write layout = .ok text ∧
      Diagram.read text false = .ok again ∧ again.diagnostics = [] ∧
      ((again.participantIds = m.participantIds ∧ again.boxes = m.boxes) ↔ m.LaidOut) := by
  -- The text closes what the source leaves open, so it is the text of the closed draft.
  obtain ⟨d, d', ends, hd0, hd', hc, hclosed, hm⟩ := Diagram.read_completes hr
  have hcopies := hc.copies hd0.aligned hd'.aligned hm
  have hlegible := hd'.toFits.legible (hc.separate hd0.aligned hd'.aligned hm hs) hd'.wellFormed hd'.aligned hd'.marked
  obtain ⟨text, r, hwrite, hread, hscript, -⟩ := hlegible.write_read layout
  have hlines := (hc.alike hd0.aligned hd'.aligned hm : Diagram.Alike layout m d'.build).lines
  have hitems := hc.names hd0.aligned hd'.aligned hm
  refine ⟨text, r.build, ?_, hread, rfl, ?_⟩
  · unfold write at hwrite ⊢
    rw [← hlines, hwrite]
  · have hids : d'.build.participantIds = m.participantIds := by
      rw [participantIds, participantIds, hcopies.participants, List.map_id]
    have hnamed : ∀ id ∈ d'.build.timeline.flatMap Statement.names, id ∈ d'.build.participantIds := by
      intro id hid
      rw [names_timeline (Draft.build_timeline hd'.aligned)] at hid
      rw [Draft.build_ids]
      obtain ⟨item, hi, hid⟩ := List.mem_flatMap.1 hid
      exact hd'.wellFormed.named id (List.mem_flatMap.2 ⟨item, List.mem_reverse.1 hi, hid⟩)
    have hplaces := laidOut_iff (Draft.build_wellBoxed hd'.wellFormed) hd hnamed
    rw [← hlegible.ids_script hclosed hd hscript, ← hlegible.boxes_script hd'.settled hclosed hd'.colors hscript,
      ← Draft.build_ids, hids, hcopies.boxes] at hplaces
    exact hplaces.trans ⟨fun hl => hl.of_copies hcopies.symm hitems.symm, fun hl => hl.of_copies hcopies hitems⟩

/-- A box with two participants, one of which sends a message to a third one. -/
def officeSource : String := "sequenceDiagram\nbox Office\nparticipant A\nparticipant B\nend\nA->>C: hi\n"

/-- What is read from the source. -/
def officeDiagram : Diagram :=
  let hi : Message := { source := { id := "A" }, target := { id := "C" }, text := some "hi", order := 0 }
  { participants := [{ id := "A" }, { id := "B" }, { id := "C", explicit := false }]
    timeline := [.message hi]
    statements := [.message hi]
    boxes := [{ label := some "Office", members := ["A", "B"] }] }

/-- The office keeps its arrangement. -/
theorem office_stays : Diagram.read officeSource false = .ok officeDiagram ∧ officeDiagram.Separate officeDiagram.timeline ∧
    officeDiagram.LaidOut ∧ ∃ text again, officeDiagram.write {} = .ok text ∧ Diagram.read text false = .ok again ∧
      again.participantIds = officeDiagram.participantIds ∧ again.boxes = officeDiagram.boxes := by
  have hread : Diagram.read officeSource false = .ok officeDiagram := by decide +kernel
  have hseparate : officeDiagram.Separate officeDiagram.timeline := by
    refine ⟨?_, ?_, ?_, ?_⟩
    · simp [officeDiagram]
    · simp [officeDiagram]
    · have hsolid : ∀ p ∈ officeDiagram.participants, Solid p.id.toList ∧ OneLine (aliasTail p.label) := by decide
      exact fun p hp => Solid.unaliased (hsolid p hp).1 (hsolid p hp).2
    · simp [officeDiagram]
  have hlaid : officeDiagram.LaidOut :=
    { uncreated := by decide +kernel
      together := by decide
      inOrder := by decide
      emptyLast := by decide
      created := by decide +kernel }
  obtain ⟨text, again, hwrite, hagain, -, hkept⟩ := @read_laidOut_iff officeDiagram {} officeSource hread hseparate rfl
  exact ⟨hread, hseparate, hlaid, text, again, hwrite, hagain, hkept.2 hlaid⟩

/-- A participant stands between those of a box, and a box without participants before one that
has some. When the text is read again, both have moved. -/
theorem scattered_moves : ∃ source text m again, Diagram.read source false = .ok m ∧ m.diagnostics = [] ∧
    m.writeWith 4 true = .ok text ∧ Diagram.read text false = .ok again ∧ again.participantIds ≠ m.participantIds ∧
    again.boxes ≠ m.boxes :=
  ⟨"sequenceDiagram\nparticipant A\nparticipant B\nbox Empty\nend\nbox Full\nparticipant A\nparticipant C\nend\n",
    "sequenceDiagram\n    box Full\n        participant A\n        participant C\n    end\n    participant B\n    box Empty\n    end\n",
    { participants := [{ id := "A" }, { id := "B" }, { id := "C" }]
      boxes := [{ label := some "Empty" }, { label := some "Full", members := ["A", "C"] }] },
    { participants := [{ id := "A" }, { id := "C" }, { id := "B" }]
      boxes := [{ label := some "Full", members := ["A", "C"] }, { label := some "Empty" }] },
    by decide +kernel, rfl, by decide +kernel, by decide +kernel, by decide, by decide⟩

end Diagram

end Lifeline
