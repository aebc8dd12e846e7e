import Lifeline.Proofs.Alike
import Lifeline.Proofs.Kept
import Lifeline.Proofs.Replay
import Lifeline.Proofs.Unnumbered
/-!
# Labels that no line shows

The line of a rectangle shows its colour, and not its label. A line that is kept in the label of
a rectangle is therefore lost in the text: the source is written as if the line were not there
(`Kept.lost`).
-/

namespace Lifeline

open History Text

/-! ## What lines show -/

theorem Diagram.reread_reread (item : Statement) : reread (reread item) = reread item := by
  cases item with
  | blockStart s => cases hk : s.block.kind <;> simp [reread, Block.asShown, hk]
  | _ => rfl

/-- The view of a draft that its lines give. The tree is not written. -/
def View.shown : View where
  item := Diagram.reread
  tree _ := []
  frame := id
  item_other := fun {x} h => by cases x <;> first | rfl | exact absurd rfl (h _)
  item_start s := ⟨{ s with block := s.block.asShown }, rfl⟩
  item_again := Diagram.reread_reread
  tree_change _ _ := rfl
  frame_region _ := rfl
  frame_content _ := rfl
  frame_again _ := rfl

/-- Aligned drafts that have the same lines. -/
structure Draft.LooksLike (d d' : Draft) : Prop where
  shown : View.shown.draft d = View.shown.draft d'
  aligned : d.Aligned
  aligned' : d'.Aligned

/-- A further branch belongs to a block of its kind. -/
theorem History.kind_of_branch {past : List Statement} (h : History past) {b : BlockBranch} (hb : .blockBranch b ∈ past)
    {o : OpenBlock} (ho : o ∈ openAfter past) (he : b.blockOrder = o.start) : o.kind.branchKeyword? = some b.keyword := by
  induction past generalizing o with
  | nil => cases hb
  | cons item older ih =>
    have hlt := start_lt h.2
    cases item with
    | blockStart t =>
      have hb : .blockBranch b ∈ older := by simpa using hb
      rcases List.mem_cons.1 ho with rfl | ho
      · have hopens : Draft.opensBranchOf b.blockOrder (.blockBranch b) = true := by simp [Draft.opensBranchOf]
        have := opens_lt h.2 hb hopens
        have ht : t.order = older.length := h.1.1
        simp only at he
        omega
      · exact ih h.2 hb ho he
    | blockBranch c =>
      obtain ⟨-, i, outer, hopen, hk, hc, -⟩ := h.1
      rw [hopen] at hlt
      simp only [openAfter, hopen, List.mem_cons] at ho
      rcases List.mem_cons.1 hb with hb | hb
      · obtain rfl := Statement.blockBranch.inj hb
        rcases ho with rfl | ho
        · exact hk
        · have hlt : i.start > o.start := (List.pairwise_cons.1 hlt.1).1 _ (List.mem_map_of_mem ho)
          omega
      · rcases ho with rfl | ho
        · exact ih (o := i) h.2 hb (by simp [hopen]) he
        · exact ih h.2 hb (by simp [hopen, ho]) he
    | blockEnd e => exact ih h.2 (by simpa using hb) (List.mem_of_mem_tail ho) he
    | _ => exact ih h.2 (by simpa using hb) ho he

/-- A text that is added to the label of a rectangle is not seen. -/
theorem Draft.Step.unseen {d d' : Draft} {text : String} (h : Step d (.extend text) d') (ha : d.Aligned)
    (hk : d.blockKind? = some .rect) : View.shown.draft d' = View.shown.draft d := by
  obtain ⟨o, ho, hkind, statements, rfl⟩ := h.extends_label ha
  have hrect : o.kind = .rect := Option.some.inj (hkind.symm.trans hk)
  have hpast : (changeFirst (opensBranchOf o.start) (growItem text) d.past).map Diagram.reread =
      d.past.map Diagram.reread := by
    refine map_changeFirst_of fun item hi hp => ?_
    cases item with
    | blockStart s =>
      have hsame := kind_of_start ha.history hi ho (beq_iff_eq.1 hp)
      simp [growItem, Diagram.reread, Block.asShown, hsame, hrect]
    | blockBranch b =>
      have hkeyword := kind_of_branch ha.history hi ho (beq_iff_eq.1 hp)
      rw [hrect] at hkeyword
      cases hkeyword
    | _ => rfl
  simp [View.draft, View.shown, hpast]

/-! ## Drafts that are written alike -/

/-- Drafts with the same lines have the same text. -/
theorem Draft.LooksLike.alike {d d' : Draft} {m m' : Diagram} (h : d.LooksLike d')
    (hm : m = { d.build with diagnostics := m.diagnostics })
    (hm' : m' = { d'.build with diagnostics := m'.diagnostics }) (layout : Layout) : Diagram.Alike layout m m' := by
  obtain ⟨hroster, hpast, -, hboxes, hnumber, -, hcreate, hdestroy⟩ := View.shown.draft_eq_iff.1 h.shown
  have htimeline := build_timeline_of_eq h.aligned hm
  have htimeline' := build_timeline_of_eq h.aligned' hm'
  have hcreates : ∀ (past : List Statement) id,
      (past.map View.shown.item).any (Statement.createsId id) = past.any (Statement.createsId id) := fun past id => by
    rw [List.any_map]
    exact congrArg past.any (funext fun item => by cases item <;> rfl)
  have hcopies : Diagram.Copies id m m' :=
    { participants := by
        rw [hm, hm', List.map_id]
        simp only [build, hroster, hcreate, hdestroy]
      alike := fun _ _ => ⟨rfl, rfl, rfl⟩
      explicit := fun _ _ => rfl
      boxes := by
        rw [hm, hm']
        exact hboxes.symm
      creates := fun id => by
        have hid := Diagram.creates_eq htimeline' id
        rwa [← hcreates, ← hpast, hcreates, ← Diagram.creates_eq htimeline id] at hid
      autonumber := by
        rw [hm, hm']
        exact hnumber.symm }
  have hlines : ∀ past : List Statement, m.timelineLines [] (past.map View.shown.item).reverse =
      m.timelineLines [] past.reverse := fun past => by
    rw [← List.map_reverse]
    exact Diagram.timelineLines_reread [] past.reverse
  have hbegins : ∀ past : List Statement, begins (past.map View.shown.item).reverse = begins past.reverse := fun past => by
    rw [← List.map_reverse]
    exact Diagram.begins_map (fun item => by cases item <;> rfl) (fun item => by cases item <;> rfl) past.reverse
  refine hcopies.isAlike ?_ ?_
  · rw [← Diagram.timelineLines_bare, htimeline', ← hlines, ← hpast, hlines, ← htimeline, Diagram.timelineLines_bare]
  · rw [← Diagram.begins_bare, htimeline', ← hbegins, ← hpast, hbegins, ← htimeline, Diagram.begins_bare]

/-! ## Readings that look alike -/

theorem Diagram.opensBranchOf_reread (start : Int) (item : Statement) :
    Draft.opensBranchOf start (reread item) = Draft.opensBranchOf start item := by
  cases item <;> rfl

/-- A label that is not shown is not shown with a text added to it either. -/
theorem Diagram.reread_growItem (text : String) (item : Statement) :
    reread (Draft.growItem text (reread item)) = reread (Draft.growItem text item) := by
  cases item with
  | blockStart s => cases hk : s.block.kind <;> simp [reread, Block.asShown, Draft.growItem, hk]
  | _ => rfl

namespace Draft

variable {d d' : Draft}

/-- What a timeline shows of a longer label depends on what it shows before. -/
theorem map_reread_changeFirst (start : Int) (text : String) (past : List Statement) :
    (changeFirst (opensBranchOf start) (growItem text) (past.map Diagram.reread)).map Diagram.reread =
      (changeFirst (opensBranchOf start) (growItem text) past).map Diagram.reread := by
  induction past with
  | nil => rfl
  | cons item older ih =>
    simp only [List.map_cons, changeFirst, Diagram.opensBranchOf_reread]
    split
    · simp [Diagram.reread_growItem, Diagram.reread_reread]
    · simp [ih, Diagram.reread_reread]

theorem Aligned.feed (ha : d.Aligned) (x : Statement) (line : Option Int) : (d.feed x line).draft.Aligned := by
  cases h : (d.feed x line).result with
  | ok a => exact (steps_feed h).aligned ha
  | error e =>
    obtain ⟨ids, -, hs⟩ := feed_error h
    exact hs.aligned ha

theorem Aligned.extendLabel (ha : d.Aligned) (text : String) : (d.extendLabel text).1.Aligned :=
  (steps_extendLabel d text).aligned ha

namespace LooksLike

theorem past (h : d.LooksLike d') : d.past.map Diagram.reread = d'.past.map Diagram.reread :=
  (View.shown.draft_eq_iff.1 h.shown).2.1

theorem frames (h : d.LooksLike d') : d.frames = d'.frames := by
  simpa [View.shown] using congrArg Draft.frames h.shown

/-- The innermost open block has as many branches in both drafts. -/
theorem branchCount (h : d.LooksLike d') {f : Frame Nat} (hf : d.frames.block? = some f) :
    d.branchCount f.content = d'.branchCount f.content := by
  have hopen : openAfter d.past = openAfter d'.past := by
    rw [← Diagram.openAfter_reread, h.past, Diagram.openAfter_reread]
  obtain ⟨o, os, ho, hcount⟩ := h.aligned.branchCount_eq hf
  obtain ⟨o', os', ho', hcount'⟩ := h.aligned'.branchCount_eq (h.frames ▸ hf)
  rw [ho, ho'] at hopen
  rw [hcount, hcount', (List.cons.inj hopen).1]

theorem feed (h : d.LooksLike d') (x : Statement) (line : Option Int) :
    (d.feed x line).draft.LooksLike (d'.feed x line).draft ∧ (d.feed x line).result = (d'.feed x line).result := by
  have hcount : ∀ keyword frame, d.frames.branch keyword = .ok frame →
      d.branchCount frame.content = d'.branchCount frame.content := by
    intro keyword frame hb
    obtain ⟨kind, outer, hf, hr, -⟩ := Frames.branch_eq_ok hb
    exact h.branchCount (hf ▸ Frames.block?_cons hr outer)
  have hfeed := View.shown.feed_congr h.shown hcount x line
  have hshown := congrArg Attempt.draft hfeed
  have hresult := congrArg Attempt.result hfeed
  exact ⟨⟨hshown, h.aligned.feed x line, h.aligned'.feed x line⟩, hresult⟩

theorem extendLabel (h : d.LooksLike d') (text : String) : (d.extendLabel text).1.LooksLike (d'.extendLabel text).1 := by
  refine ⟨?_, h.aligned.extendLabel text, h.aligned'.extendLabel text⟩
  unfold Draft.extendLabel
  rw [← h.frames]
  cases hf : d.frames.block? with
  | none => exact h.shown
  | some frame =>
    have hpast := (h.aligned.grows hf text).1
    have hpast' := (h.aligned'.grows (h.frames ▸ hf) text).1
    have hmap := congrArg (fun past => (changeFirst (opensBranchOf frame.content) (growItem text) past).map Diagram.reread)
      h.past
    simp only [map_reread_changeFirst] at hmap
    obtain ⟨hroster, -, -, hboxes, hnumber, hframes, hcreate, hdestroy⟩ := View.shown.draft_eq_iff.1 h.shown
    refine View.shown.draft_eq_iff.2 ⟨hroster, ?_, rfl, hboxes, hnumber, hframes, hcreate, hdestroy⟩
    simp only [growBlock, hpast, hpast']
    exact hmap

end LooksLike

end Draft

/-- Steps that stop for the same reason, or lead to drafts that look alike. -/
structure Session.LooksLike (step step' : Step) : Prop where
  stops : step.2 = step'.2
  draft : step.1.draft.LooksLike step'.1.draft

namespace Session

variable {s s' : Session}

theorem andThen_looksLike {step step' : Step} (h : LooksLike step step') {next : Session → Step}
    (hn : ∀ s s', s.draft.LooksLike s'.draft → LooksLike (next s) (next s')) :
    LooksLike (andThen step next) (andThen step' next) := by
  obtain ⟨s, e⟩ := step
  obtain ⟨s', e'⟩ := step'
  obtain ⟨rfl, hdraft⟩ := h
  cases e with
  | none => exact hn s s' hdraft
  | some e => exact ⟨rfl, hdraft⟩

theorem feed_looksLike (h : s.draft.LooksLike s'.draft) (line : SourceLine) (x : Statement) :
    LooksLike (s.feed false line x) (s'.feed false line x) := by
  obtain ⟨hdraft, hresult⟩ := h.feed x (some line.number)
  unfold feed
  generalize s.draft.feed x (some (line.number : Int)) = a at hdraft hresult
  generalize s'.draft.feed x (some (line.number : Int)) = a' at hdraft hresult
  obtain ⟨d, result⟩ := a
  obtain ⟨d', result'⟩ := a'
  obtain rfl : result = result' := hresult
  cases result with
  | ok a => exact ⟨rfl, hdraft⟩
  | error e =>
    cases e with
    | emptyId | invalid => exact ⟨rfl, hdraft⟩
    | frame f =>
      cases f with
      | notABranch | nothingOpen => exact ⟨rfl, hdraft⟩
      | _ => exact ⟨rfl, hdraft.extendLabel line.text⟩

theorem readLines_looksLike (h : s.draft.LooksLike s'.draft) (lines : List SourceLine) :
    LooksLike (s.readLines false lines) (s'.readLines false lines) := by
  induction lines generalizing s s' with
  | nil => exact ⟨rfl, h⟩
  | cons line lines ih =>
    refine andThen_looksLike ?_ fun _ _ hs => ih hs
    unfold readLine
    cases Statement.ofLine line.text with
    | ok x => exact feed_looksLike h line x
    | error e =>
      dsimp only
      split <;> exact ⟨rfl, h⟩

end Session

/-! ## Lines that are lost -/

theorem Session.diagram_finish (s : Session) : s.finish.2 = { s.draft.build with diagnostics := s.finish.2.diagnostics } := rfl

/-- If the innermost open block is a rectangle, a source without the line that is kept is read as
a diagram with the same text. -/
theorem Kept.lost {source : String} {m : Diagram} {x : Diagnostic} (k : Kept source m x)
    (hk : k.early.draft.blockKind? = some .rect) {source' : String}
    (hs : significantLines source' = (significantLines source).filter fun line => line.number != x.line) :
    ∃ m', Diagram.read source' false = .ok m' ∧ ∀ layout, m'.write layout = m.write layout := by
  have hlines := hs.trans k.lines_without
  -- Without the line the later ones are read into a draft that looks like the one with it.
  have hlooks : k.grown.draft.LooksLike k.early.draft :=
    ⟨k.grows.unseen k.aligned_early hk, k.aligned_grown, k.aligned_early⟩
  obtain ⟨hstops, hdraft⟩ := Session.readLines_looksLike hlooks k.after
  rw [k.reads_after] at hstops hdraft
  have hread : ({} : Session).readLines false (k.before ++ k.after) = k.early.readLines false k.after := by
    rw [Session.readLines_append, k.reads_before]
    rfl
  generalize k.early.readLines false k.after = step at hstops hdraft hread
  have hopen := Session.andThen_of_none hstops.symm fun s => s.reportOpen false s.draft.frames.reverse
  have hgoes := Session.reportOpen_goes (s := step.1) step.1.draft.frames.reverse
  refine ⟨_, Diagram.read_eq hlines k.header (by rw [hread, hopen]) hgoes.1, fun layout => ?_⟩
  have hend : (step.1.reportOpen false step.1.draft.frames.reverse).1.draft = step.1.draft := Session.reportOpen_draft
  generalize (step.1.reportOpen false step.1.draft.frames.reverse).1 = s at hend
  rw [← hend] at hdraft
  have halike := hdraft.alike k.diagram s.diagram_finish layout
  rw [Diagram.write, Diagram.write, halike.lines]

end Lifeline
