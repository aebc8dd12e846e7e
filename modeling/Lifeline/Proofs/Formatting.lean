import Lifeline.Proofs.Redrawing
import Lifeline.Proofs.Sessions
/-!
# Formatting what was formatted

A diagram whose text is read back as it stands is formatted once and for all: formatting
its text again gives the same text (`formatText_again`). A diagram is that steady if the
parts of its lines do not run into each other, no participant with links is created twice,
and boxes leave the links in their order. Of a diagram without that, the text can be read
as another diagram, and the next formatting changes it.
-/

namespace Lifeline

open History Text

/-- A participant with links. -/
def Participant.isLinked (p : Participant) : Bool := !p.links.isEmpty

namespace Diagram

variable {m m' : Diagram} {past : List Statement} {layout : Layout}

/-! ## The participants of a text -/

/-- The participants that are declared in columns, in order. -/
def columnIds (m : Diagram) (layout : Layout) : List String :=
  ((m.allColumns layout).flatMap m.columnMembers).map Participant.id

theorem names_columnEvents (c : Column) :
    (scriptEvents (m.columnScript c)).flatMap Event.names = (m.columnMembers c).map Participant.id := by
  cases c with
  | alone p => rfl
  | boxed place box =>
    have hdecl : ∀ ps : List Participant, (ps.flatMap fun p => (Event.declare p.id p.kind p.label).names) =
        ps.map Participant.id := fun ps => List.flatMap_pure_eq_map _ _
    rw [scriptEvents_boxed, List.flatMap_cons, List.flatMap_append, List.flatMap_map, hdecl]
    simp [Event.names, columnMembers]

theorem foldl_itemEvents {item : Statement} (hk : m.Known item) (ids : List String) :
    ((m.itemEvents item).flatMap Event.names).foldl Roster.addName ids = item.names.foldl Roster.addName ids := by
  cases item with
  | directive x =>
    cases hkind : x.kind with
    | create =>
      -- The links that follow a creation name the same participant again.
      have hid := (created_mem (hk x rfl hkind)).2
      have hlinks : ∀ i ∈ ((m.created x.id).links.map Link.read).flatMap fun l => (Event.link x.id l).names,
          i ∈ Roster.addName ids x.id := by
        intro i hi
        obtain ⟨l, -, hi⟩ := List.mem_flatMap.1 hi
        exact Roster.mem_addName.2 (.inr (List.mem_singleton.1 hi))
      rw [itemEvents_create hkind, hid, List.flatMap_cons, List.flatMap_map, List.foldl_append]
      exact Roster.foldl_addName_of_mem hlinks
    | _ => simp [itemEvents, itemScript, directiveScript, hkind, scriptEvents, Statement.draftEvents,
        Operation.statementEvents, Event.names, Statement.names]
  | _ => simp [itemEvents, itemScript, scriptEvents, Statement.draftEvents, Operation.statementEvents, Event.names,
      Statement.names]

theorem foldl_itemsEvents {items : List Statement} (hk : ∀ item ∈ items, m.Known item) (ids : List String) :
    ((items.flatMap m.itemEvents).flatMap Event.names).foldl Roster.addName ids =
      (items.flatMap Statement.names).foldl Roster.addName ids := by
  induction items generalizing ids with
  | nil => rfl
  | cons item items ih =>
    simp only [List.flatMap_cons, List.flatMap_append, List.foldl_append]
    rw [foldl_itemEvents (hk item (by simp)), ih fun i hi => hk i (List.mem_cons_of_mem item hi)]

theorem names_timeline {past : List Statement} (ht : m.timeline.map Statement.bare = past.reverse) :
    m.timeline.flatMap Statement.names = past.reverse.flatMap Statement.names := by
  rw [← ht, List.flatMap_map]
  exact List.flatMap_congr fun item _ => by cases item <;> rfl

/-- Every participant that the timeline does not create is declared in a column. -/
theorem mem_columnIds (h : m.WellBoxed) (hd : layout.declareImplicit = true) {id : String} :
    id ∈ m.columnIds layout ↔ id ∈ m.participantIds ∧ m.creates id = false := by
  constructor
  · intro hid
    obtain ⟨p, hp, rfl⟩ := List.mem_map.1 hid
    obtain ⟨c, hc, hm⟩ := List.mem_flatMap.1 hp
    obtain ⟨hp, hcr, -⟩ := (mem_columnMembers h layout).1 ⟨c, hc, hm⟩
    exact ⟨List.mem_map_of_mem hp, hcr⟩
  · rintro ⟨hid, hcr⟩
    obtain ⟨p, hp, rfl⟩ := List.mem_map.1 hid
    obtain ⟨c, hc, hm⟩ := (mem_columnMembers h layout).2 ⟨hp, hcr, .inr (by simp [hd])⟩
    exact List.mem_map_of_mem (List.mem_flatMap.2 ⟨c, hc, hm⟩)

theorem filter_uncreated {ids : List String} (hu : ∀ id ∈ ids, m.creates id = false) :
    (ids.filter fun id => !m.creates id) = ids := by
  rw [List.filter_eq_self]
  intro id hid
  simp [hu id hid]

/-- Of all that a timeline names, what it does not create is declared in a column already. -/
theorem filter_foldl_columnIds (h : m.WellBoxed) (hd : layout.declareImplicit = true) {ids : List String}
    (hn : ∀ id ∈ ids, id ∈ m.participantIds) :
    ((ids.foldl Roster.addName (m.columnIds layout)).filter fun id => !m.creates id) = m.columnIds layout := by
  have hnames : ∀ id ∈ ids, (!m.creates id) = true → id ∈ m.columnIds layout := fun id hid hcr =>
    (mem_columnIds h hd).2 ⟨hn id hid, by simpa using hcr⟩
  rw [Roster.filter_foldl_addName hnames, filter_uncreated fun id hid => ((mem_columnIds h hd).1 hid).2]

/-- What is read from a text has the participants of the columns first, and then those that
only the timeline names. -/
theorem Legible.ids_script (h : m.Legible past) (hclosed : openAfter past = []) (hd : layout.declareImplicit = true)
    {r : Draft} (hs : Draft.Steps {} (scriptEvents (m.script layout past)) r) :
    r.roster.ids = (m.timeline.flatMap Statement.names).foldl Roster.addName (m.columnIds layout) := by
  have hnumber : (if m.autonumber then [Event.number true] else []).flatMap Event.names = [] := by
    split <;> rfl
  have hcolumns : ((m.allColumns layout).flatMap fun c => scriptEvents (m.columnScript c)).flatMap Event.names =
      m.columnIds layout := by
    rw [columnIds, List.flatMap_assoc, List.map_flatMap]
    exact List.flatMap_congr fun c _ => names_columnEvents c
  have hfirst : (m.columnIds layout).foldl Roster.addName [] = m.columnIds layout :=
    Roster.foldl_addName_of_nodup (nodup_members h.boxed layout)
  have hlinks : ∀ id ∈ m.linkEvents.flatMap Event.names, id ∈ m.columnIds layout := by
    intro id hid
    obtain ⟨e, he, hid⟩ := List.mem_flatMap.1 hid
    obtain ⟨p, hp, he⟩ := List.mem_flatMap.1 he
    obtain ⟨l, -, rfl⟩ := List.mem_map.1 he
    obtain rfl := List.mem_singleton.1 hid
    obtain ⟨hp, hcr⟩ := List.mem_filter.1 hp
    exact (mem_columnIds h.boxed hd).2 ⟨List.mem_map_of_mem hp, by simpa using hcr⟩
  have hids : r.roster.ids = ((scriptEvents (m.script layout past)).flatMap Event.names).foldl Roster.addName [] :=
    hs.ids
  rw [scriptEvents_script hclosed, List.flatMap_append, List.flatMap_append, List.flatMap_append, hnumber, List.nil_append,
    hcolumns, List.foldl_append, List.foldl_append, hfirst, Roster.foldl_addName_of_mem hlinks] at hids
  rw [hids, names_timeline h.timeline]
  exact foldl_itemsEvents (fun item hi => h.knows (List.mem_reverse.1 hi)) _

/-- The participants that are declared before the timeline stand in the order of the columns. -/
theorem Cast.ids_columns (hc : m.Cast past) (h : m.Legible past) (hclosed : openAfter past = [])
    (hd : layout.declareImplicit = true) {r : Draft} (hs : Draft.Steps {} (scriptEvents (m.script layout past)) r) :
    (r.roster.ids.filter fun id => !m.creates id) = m.columnIds layout := by
  rw [h.ids_script hclosed hd hs]
  refine filter_foldl_columnIds h.boxed hd fun id hid => ?_
  rw [names_timeline h.timeline] at hid
  obtain ⟨item, hi, hid⟩ := List.mem_flatMap.1 hid
  exact hc.named item (List.mem_reverse.1 hi) id hid

/-- Participants that are found by their ids are told apart by them. -/
theorem eq_of_ids {ps qs : List Participant} (hp : ∀ p ∈ ps, m.participant? p.id = some p)
    (hq : ∀ p ∈ qs, m.participant? p.id = some p) (h : ps.map Participant.id = qs.map Participant.id) : ps = qs := by
  have hfound : ∀ {l : List Participant}, (∀ p ∈ l, m.participant? p.id = some p) →
      (l.map Participant.id).filterMap m.participant? = l := by
    intro l hl
    rw [List.filterMap_map]
    exact (List.filterMap_congr hl).trans List.filterMap_some
  rw [← hfound hp, h, hfound hq]

/-- The draft that the script of a diagram leads to has the diagram's columns. -/
theorem Cast.redraws (hc : m.Cast past) (h : m.Legible past) (hsettled : Settled past) (hclosed : openAfter past = [])
    (horders : ∀ p ∈ m.participants, p.createdAt = (Marks.ofPast p.id past).created.or (Marks.ofPast p.id past).awaitingCreate ∧
      p.destroyedAt = (Marks.ofPast p.id past).destroyed.or (Marks.ofPast p.id past).awaitingDestroy)
    (hplain : ∀ b ∈ m.boxes, b.IsPlain) (hd : layout.declareImplicit = true) {r : Draft}
    (hs : Draft.Steps {} (scriptEvents (m.script layout past)) r) : Redraws layout m r.build := by
  obtain ⟨hpast, -, hboxes⟩ := h.replay hsettled hclosed layout hs
  have hr := hs.regular (Draft.isReal_scriptEvents _) Draft.regular_empty
  have hboxed := Draft.build_wellBoxed hr.wellFormed
  have hperm := hc.participants_perm h hsettled hclosed horders layout hs
  have hcreates : ∀ id, r.build.creates id = m.creates id := by
    intro id
    rw [creates_eq (Draft.build_timeline hr.aligned), creates_eq h.timeline, hpast, List.any_map]
    congr 1
    funext item
    cases item <;> rfl
  have hfound : ∀ id, r.build.participant? id = (m.participant? id).map (relisted layout) := by
    intro id
    cases hp : m.participant? id with
    | some p =>
      obtain rfl : p.id = id := by simpa using List.find?_some hp
      exact participant?_of_mem hboxed.nodup (hperm.mem_iff.2 (List.mem_map_of_mem (List.mem_of_find?_eq_some hp)))
    | none =>
      refine List.find?_eq_none.2 fun q hq => ?_
      obtain ⟨p, hm, rfl⟩ := List.mem_map.1 (hperm.mem_iff.1 hq)
      exact List.find?_eq_none.1 hp p hm
  refine
    { boxed := h.boxed, boxed' := hboxed, declared := hd, creates := hcreates, participant? := hfound, participants := ?_
      boxes := hboxes, headings := fun b hb => ?_ }
  -- Both lists have the ids of the columns in order, and the ids tell the participants.
  · refine eq_of_ids (m := r.build) (fun q hq => participant?_of_mem hboxed.nodup (List.mem_filter.1 hq).1) (fun q hq => ?_) ?_
    · obtain ⟨p, hp, rfl⟩ := List.mem_map.1 hq
      obtain ⟨c, hcol, hm⟩ := List.mem_flatMap.1 hp
      have hp := participant?_of_mem h.boxed.nodup (columnMember_mem h.boxed hcol hm)
      exact (hfound _).trans (congrArg _ hp)
    · have hids := hc.ids_columns h hclosed hd hs
      rw [← r.build_ids, participantIds, List.filter_map] at hids
      simp only [hcreates]
      rw [List.map_map]
      exact hids
  · rw [redrawn, Box.readHeading_eq (h.boxes b hb).trimmed (hplain b hb)]
    rfl

/-! ## The lines of a text -/

/-- A participant is written as it was before its links were read. -/
theorem alike_relisted {p : Participant} (h : p.Legible) : p.Alike (relisted layout p) where
  id := rfl
  declaration := rfl
  links := by
    have hline : ∀ l ∈ p.links, p.linkLine l.reread = p.linkLine l := fun l hl => by
      have ht : ∀ l, (p.linkLine l).toList = "link ".toList ++ (p.id.toList ++ ':' :: ' ' :: l.tail) := fun l => by
        simp [Participant.linkLine, Link.tail, toString]
      rw [← String.toList_inj, ht, ht, (h.links l hl).kept]
    simp only [Participant.linkLines, relisted, List.map_map]
    exact List.map_congr_left hline

/-- The participants with links are drawn in the order in which they are listed. -/
def LinkedInOrder (m : Diagram) (layout : Layout) : Prop :=
  ((m.allColumns layout).flatMap m.columnMembers).filter Participant.isLinked =
    (m.participants.filter fun p => !m.creates p.id).filter Participant.isLinked

instance (m : Diagram) (layout : Layout) : Decidable (m.LinkedInOrder layout) := inferInstanceAs (Decidable (_ = _))

theorem linkLines_linked (ps : List Participant) : (ps.flatMap fun p => p.linkLines.map fun text => (⟨1, text⟩ : Line)) =
    (ps.filter Participant.isLinked).flatMap fun p => p.linkLines.map fun text => ⟨1, text⟩ := by
  induction ps with
  | nil => rfl
  | cons p ps ih =>
    cases hp : p.isLinked with
    | true => rw [List.filter_cons_of_pos hp, List.flatMap_cons, List.flatMap_cons, ih]
    | false =>
      have hnone : p.links = [] := by simpa [Participant.isLinked] using hp
      rw [List.filter_cons_of_neg (by simp [hp]), List.flatMap_cons, ih]
      simp [Participant.linkLines, hnone]

theorem Redraws.linkLines {r : Diagram} (hr : Redraws layout m r) (h : m.Legible past) (ho : m.LinkedInOrder layout) :
    r.linkLines = m.linkLines := by
  have hread : r.linkLines = ((m.allColumns layout).flatMap m.columnMembers).flatMap fun p =>
      p.linkLines.map fun text => ⟨1, text⟩ := by
    have : r.linkLines = (r.participants.filter fun p => !r.creates p.id).flatMap fun p =>
      p.linkLines.map fun text => ⟨1, text⟩ := rfl
    rw [this, hr.participants, List.flatMap_map]
    refine List.flatMap_congr fun p hp => ?_
    obtain ⟨c, hcol, hm⟩ := List.mem_flatMap.1 hp
    rw [(alike_relisted (h.participants p (columnMember_mem h.boxed hcol hm))).links]
  rw [hread, linkLines_linked, ho, ← linkLines_linked]
  rfl

/-- A diagram that is read from the text of another, in which nothing is open and of which
the links are in order, is written alike. -/
theorem Redraws.alike {r : Diagram} (hr : Redraws layout m r) (h : m.Legible past) (ho : m.LinkedInOrder layout)
    (hnumber : r.autonumber = m.autonumber) (htimeline : r.timeline.map Statement.bare = (past.map reread).reverse) :
    Alike layout m r := by
  have hitems : r.timeline.map Statement.bare = (m.timeline.map Statement.bare).map reread := by
    rw [htimeline, h.timeline, List.map_reverse]
  have hlines : ∀ kinds items, r.timelineLines kinds items = m.timelineLines kinds items :=
    timelineLines_congr fun depth x =>
      directiveLines_congr (hr.participant? x.id) (fun p hp => alike_relisted (h.participants p hp)) depth
  refine .of_parts hnumber hr.declarationLines (hr.linkLines h ho) ?_ ?_
  · rw [hlines, ← timelineLines_bare, hitems, timelineLines_reread, timelineLines_bare]
  · rw [← begins_bare, hitems, begins_map (fun item => by cases item <;> rfl) (fun item => by cases item <;> rfl),
      begins_bare]

end Diagram

/-! ## Drafts that are read -/

/-- What holds of every draft that is read. -/
structure Draft.IsRead (d : Draft) : Prop extends d.Regular, d.Fits where
  colors : ∀ b ∈ d.boxes, b.IsPlain

theorem Draft.isRead_of_steps {d : Draft} {es : List Event} (hs : Steps {} es d) (he : ∀ e ∈ es, e.IsRead) : d.IsRead := by
  have hstart : IsRead {} := { regular_empty, fits_empty with colors := by simp }
  refine hs.keep (fun he h hd => ?_) he hstart
  exact
    { h.regular he.fits.isReal hd.toRegular, h.fits hd.aligned he.fits hd.toFits with
      colors := h.keep_boxes (fun hl hc hp c hb => by
        rw [← hl] ; exact hp c (hc ▸ hb)) he.plain hd.colors }

namespace Diagram

variable {m m' : Diagram} {layout : Layout}

theorem Separate.of_messages {items items' : List Statement} (h : m.Separate items) (hp : m'.participants = m.participants)
    (hi : ∀ x, .message x ∈ items' → .message x ∈ items) : m'.Separate items' where
  noTip := fun x hx => h.noTip x (hi x hx)
  noDash := fun x hx => h.noDash x (hi x hx)
  unaliased := hp ▸ h.unaliased
  links := hp ▸ h.links

/-- A diagram that is drawn from its text as it is: the parts of its lines do not run into
each other, no participant with links is created twice, and the participants with links
are drawn in their order. -/
structure Steady (m : Diagram) (layout : Layout) : Prop where
  separate : m.Separate m.timeline
  once : ∀ p ∈ m.participants, p.links = [] ∨ m.timeline.countP (Statement.createsId p.id) ≤ 1
  inOrder : m.LinkedInOrder layout

theorem LinkedInOrder.of_copies (h : m.LinkedInOrder layout) (hc : Copies id m m') : m'.LinkedInOrder layout := by
  have hp : m'.participants = m.participants := by rw [hc.participants, List.map_id]
  have hcreates : m'.creates = m.creates := funext hc.creates
  have hfound : m'.participant? = m.participant? := funext fun id => by unfold participant?; rw [hp]
  have hbox : m'.boxOf? = m.boxOf? := funext fun id => by unfold boxOf?; rw [hc.boxes]
  have hmembers : m'.columnMembers = m.columnMembers := funext fun c => by
    cases c <;> simp only [columnMembers, drawn, hcreates, hfound]
  have hcolumns : ∀ ps places, m'.columns layout ps places = m.columns layout ps places := fun ps places => by
    induction ps generalizing places with
    | nil => rfl
    | cons p ps ih => simp only [columns, hcreates, hbox, ih]
  unfold LinkedInOrder at h ⊢
  rw [hmembers, hcreates, hp, allColumns, hp, hcolumns, hc.boxes]
  exact h

/-! ## Items of a timeline without what has grown into them -/

theorem message_mem_timeline {past : List Statement} (ht : m.timeline.map Statement.bare = past.reverse) {x : Message}
    (hx : .message x ∈ past) : .message x ∈ m.timeline := by
  rw [← List.mem_reverse, ← ht] at hx
  obtain ⟨item, hi, he⟩ := List.mem_map.1 hx
  cases item <;> cases he
  exact hi

theorem creations_timeline {past : List Statement} (ht : m.timeline.map Statement.bare = past.reverse) (id : String) :
    m.timeline.countP (Statement.createsId id) = past.countP (Statement.createsId id) := by
  have hb : Statement.createsId id ∘ Statement.bare = Statement.createsId id := funext fun item => by cases item <;> rfl
  rw [← List.countP_reverse (l := past), ← ht, List.countP_map, hb]

end Diagram

namespace Draft

variable {d d' : Draft} {ends : List Statement} {m : Diagram} {layout : Layout}

/-- Lines that do not run into each other stay so when the blocks are closed. -/
theorem Completes.separate (h : Completes d d' ends) (ha : d.Aligned) (ha' : d'.Aligned)
    (hm : m = { d.build with diagnostics := m.diagnostics }) (hs : m.Separate m.timeline) : d'.build.Separate d'.past := by
  have htimeline := build_timeline_of_eq ha hm
  refine hs.of_messages (by rw [(h.copies ha ha' hm).participants, List.map_id]) fun x hx => ?_
  rw [h.past] at hx
  rcases List.mem_append.1 hx with hx | hx
  · cases h.onlyEnds _ hx
  · exact Diagram.message_mem_timeline htimeline hx

/-- A steady diagram stays so when its blocks are closed. -/
theorem Completes.steady (h : Completes d d' ends) (ha : d.Aligned) (ha' : d'.Aligned)
    (hm : m = { d.build with diagnostics := m.diagnostics }) (hs : m.Steady layout) : d'.build.Separate d'.past ∧
      (∀ p ∈ d'.build.participants, p.links = [] ∨ d'.past.countP (Statement.createsId p.id) ≤ 1) ∧
      d'.build.LinkedInOrder layout := by
  have hc := h.copies ha ha' hm
  have hp : d'.build.participants = m.participants := by rw [hc.participants, List.map_id]
  have htimeline := build_timeline_of_eq ha hm
  refine ⟨h.separate ha ha' hm hs.separate, fun p hpm => ?_, hs.inOrder.of_copies hc⟩
  have hends : ends.countP (Statement.createsId p.id) = 0 := List.countP_eq_zero.2 fun e he => by
    simp [createsId_blockEnd (h.onlyEnds e he)]
  rw [h.past, List.countP_append, hends, Nat.zero_add, ← Diagram.creations_timeline htimeline]
  exact hs.once p (hp ▸ hpm)

/-- What is known of the links of participants holds of all cards. -/
theorem links_card (hd : d.WellFormed) (hm : d.Marked) {P : String → Prop}
    (h : ∀ p ∈ d.build.participants, p.links = [] ∨ P p.id) (id : String) : (d.roster.card id).links = [] ∨ P id := by
  cases hid : d.roster.contains id with
  | false => exact .inl (by simp [Roster.card, Roster.get?_eq_none hid])
  | true =>
    have hid : id ∈ d.build.participantIds := by simpa [build_ids, Roster.contains_eq] using hid
    obtain ⟨p, hp, rfl⟩ := List.mem_map.1 hid
    have := h p hp
    rw [(participant_build hd hm hp).2] at this
    exact this

end Draft

/-! ## Formatting again -/

/-- The diagram that is read from a source is that of a draft, of which the open blocks can be
closed. -/
theorem Diagram.read_completes {source : String} {m : Diagram} (hr : Diagram.read source false = .ok m) :
    ∃ (d d' : Draft) (ends : List Statement), d.IsRead ∧ d'.IsRead ∧ d.Completes d' ends ∧ openAfter d'.past = [] ∧
      m = { d.build with diagnostics := m.diagnostics } := by
  obtain ⟨d, es, hsteps, hes, hm⟩ := Diagram.read_steps hr
  obtain ⟨d', ends, n, hclose, hc⟩ := d.exists_completes
  have hd' : d'.IsRead := Draft.isRead_of_steps (hsteps.append hclose) fun e he => by
    rcases List.mem_append.1 he with he | he
    · exact hes e he
    · obtain rfl := List.eq_of_mem_replicate he
      exact Event.Fits.isRead (e := .close) trivial rfl
  have hclosed : openAfter d'.past = [] := by simpa [hc.frames, Frames.blocks] using hd'.aligned.frames
  exact ⟨d, d', ends, Draft.isRead_of_steps hsteps hes, hd', hc, hclosed, hm⟩

/-- A participant of a diagram that is read is one of the draft that the events of its lines lead
to. -/
theorem Diagram.participant_of_read {source : String} {m : Diagram} (h : Diagram.read source false = .ok m)
    {p : Participant} (hp : p ∈ m.participants) :
    ∃ d es, Draft.Steps {} es d ∧ (∀ e ∈ es, e.IsRead) ∧ d.IsRead ∧ IsId p.id.toList ∧
      p = Diagram.participantOf p.id (d.roster.card p.id) (Marks.ofPast p.id d.past) := by
  obtain ⟨d, es, hsteps, hes, hm⟩ := Diagram.read_steps h
  have hd := Draft.isRead_of_steps hsteps hes
  rw [hm] at hp
  obtain ⟨hknown, he⟩ := Draft.participant_build hd.wellFormed hd.marked hp
  exact ⟨d, es, hsteps, hes, hd, hd.ids p.id hknown, he⟩

/-- The text of a steady diagram that is read from a source is read as a diagram with the
same text. -/
theorem Diagram.Steady.again {m : Diagram} {layout : Layout} (hs : m.Steady layout) (hd : layout.declareImplicit = true)
    {source text : String} (hr : Diagram.read source false = .ok m) (hw : m.writeWithin layout = .ok text) :
    ∃ m', Diagram.read text false = .ok m' ∧ m'.diagnostics = [] ∧ m'.writeWithin layout = .ok text := by
  -- The text closes what the source leaves open, so it is the text of the closed draft.
  obtain ⟨d, d', ends, hd0, hd', hc, hclosed, hm⟩ := Diagram.read_completes hr
  obtain ⟨hsep, hone, horder⟩ := hc.steady hd0.aligned hd'.aligned hm hs
  have hlegible := hd'.toFits.legible hsep hd'.wellFormed hd'.aligned hd'.marked
  have hcast := Draft.build_cast hd'.wellFormed hd'.aligned hd'.marked (Draft.links_card hd'.wellFormed hd'.marked hone)
  obtain ⟨t, r, hwrite, hread, hscript, -⟩ := hlegible.write_read layout
  obtain ⟨hpast, hnumber, -⟩ := hlegible.replay hd'.settled hclosed layout hscript
  have hr := hscript.regular (Draft.isReal_scriptEvents _) Draft.regular_empty
  have hredraws := hcast.redraws hlegible hd'.settled hclosed (Draft.build_orders hd'.wellFormed hd'.marked) hd'.colors hd
    hscript
  -- From the diagram to the closed draft, and from there to what is read back, the lines stay.
  have hfirst : Diagram.Alike layout m d'.build := hc.alike hd0.aligned hd'.aligned hm
  have hsecond := hredraws.alike hlegible horder hnumber (hpast ▸ Draft.build_timeline hr.aligned)
  have hwritten : d'.build.writeWithin layout = .ok text := hfirst.writeWithin.trans hw
  have htext : t = text := by
    have : d'.build.write layout = .ok text := by
      unfold Diagram.writeWithin at hwritten
      split at hwritten
      · exact hwritten
      · split at hwritten
        · cases hwritten
        · exact hwritten
    exact Except.ok.inj (hwrite.symm.trans this)
  exact ⟨r.build, htext ▸ hread, rfl, hsecond.writeWithin.trans hwritten⟩

theorem Diagram.writeWith_eq_ok {m : Diagram} {indent : Int} {text : String} : m.writeWith indent true = .ok text ↔
    0 ≤ indent ∧ m.writeWithin { indent := indent.toNat } = .ok text := by
  unfold writeWith Layout.ofIndent
  by_cases hi : indent < 0
  · simp [hi]
  · simp [hi, not_lt.1 hi]

/-- A source is formatted into the text of the diagram that is read from it. -/
theorem formatText_eq_ok {source text : String} {indent : Int} : formatText source indent false = .ok text ↔
    ∃ m, Diagram.read source false = .ok m ∧ 0 ≤ indent ∧ m.writeWithin { indent := indent.toNat } = .ok text := by
  unfold formatText formatStanding
  cases hr : Diagram.read source false with
  | error e => simp
  | ok m =>
    have hw : ((m.standing Half.replaced).writeWith indent true).mapError FormatError.write = .ok text ↔
        (m.standing Half.replaced).writeWith indent true = .ok text := by
      cases (m.standing Half.replaced).writeWith indent true <;> simp [Except.mapError]
    simp only [hw, Diagram.writeWith_eq_ok, m.alike_standing.writeWithin, Except.ok.injEq, exists_eq_left']

/-- Formatting a source of which the diagram is steady, and formatting the text again,
gives the same text. -/
theorem formatText_again {source text : String} {indent : Int} (h : formatText source indent false = .ok text)
    (hs : ∀ m, Diagram.read source false = .ok m → m.Steady { indent := indent.toNat }) :
    formatText text indent false = .ok text := by
  obtain ⟨m, hr, hi, hw⟩ := formatText_eq_ok.1 h
  obtain ⟨m', hr', -, hw'⟩ := (hs m hr).again rfl hr hw
  exact formatText_eq_ok.2 ⟨m', hr', hi, hw'⟩

/-- A linked participant in a box, and a message. -/
def teamSource : String := "sequenceDiagram\nlink A: a @ u\nbox Team\nparticipant A\nend\nA->>B: hi\n"

/-- The source as it is formatted. -/
def teamText : String :=
  "sequenceDiagram\n  box Team\n    participant A\n  end\n  participant B\n  link A: a @ u\n  A->>B: hi\n"

theorem team_again : formatText teamSource 2 false = .ok teamText ∧
    (∀ m, Diagram.read teamSource false = .ok m → m.Steady { indent := 2 }) ∧ formatText teamText 2 false = .ok teamText := by
  have hformat : formatText teamSource 2 false = .ok teamText := by decide +kernel
  have hsteady : ∀ m, Diagram.read teamSource false = .ok m → m.Steady { indent := 2 } := by
    intro m hm
    have hread : (Diagram.read teamSource false).toOption.map (fun m => (m.participants, m.timeline)) = some
        ([{ id := "A", links := [⟨[.char 'a'], [.char 'u']⟩] }, { id := "B", explicit := false }],
          [.message { source := { id := "A" }, target := { id := "B" }, text := some "hi", order := 0 }]) := by
      decide +kernel
    have horder : ∀ m ∈ (Diagram.read teamSource false).toOption, m.LinkedInOrder { indent := 2 } := by decide +kernel
    have hlink : Link.Clear ⟨[.char 'a'], [.char 'u']⟩ := by
      have ha : Solid ['a'] := by decide
      have hu : Solid ['u'] := by decide
      exact ⟨ha.tight, ha.oneLine, ⟨by decide, hu.tight, hu.oneLine⟩, by decide, by decide⟩
    rw [hm] at hread horder
    obtain ⟨hparts, hitems⟩ := Prod.mk.inj (Option.some.inj hread)
    refine { separate := ⟨?_, ?_, ?_, ?_⟩, once := ?_, inOrder := horder m rfl }
    · simp [hitems]
    · simp [hitems]
    · have hsolid : ∀ p ∈ m.participants, Solid p.id.toList ∧ OneLine (aliasTail p.label) := by
        rw [hparts]
        decide
      exact fun p hp => Solid.unaliased (hsolid p hp).1 (hsolid p hp).2
    · simpa [hparts] using hlink.legible
    · rw [hparts, hitems]
      decide
  exact ⟨hformat, hsteady, formatText_again hformat hsteady⟩

/-- Links are listed in the order of their participants; a box declares its participants
together, so a participant between them comes after them when the text is read. -/
theorem boxed_links_move : ∃ source text again, formatText source 4 false = .ok text ∧
    formatText text 4 false = .ok again ∧ again ≠ text :=
  ⟨"sequenceDiagram\nlink A: a @ u\nlink B: b @ u\nlink C: c @ u\nbox\nparticipant A\nparticipant C\nend\n",
    "sequenceDiagram\n    box\n        participant A\n        participant C\n    end\n    participant B\n    link A: a @ u\n    link B: b @ u\n    link C: c @ u\n",
    "sequenceDiagram\n    box\n        participant A\n        participant C\n    end\n    participant B\n    link A: a @ u\n    link C: c @ u\n    link B: b @ u\n",
    by decide +kernel, by decide +kernel, by decide +kernel⟩

end Lifeline
