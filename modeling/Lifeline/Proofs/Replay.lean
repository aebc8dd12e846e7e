import Mathlib.Data.List.Nodup
import Lifeline.Proofs.Legible
import Lifeline.Proofs.Marks
/-!
# What the events of a script leave

The events of a script lead to a draft with the timeline, the boxes and the numbering that
the script was made from.
-/

namespace Lifeline

open History

/-! ## Directives that stay -/

/-- A directive does not follow a message that could take it in. -/
def Statement.Stays (last : Option Statement) : Statement → Prop
  | .directive x => ∀ m, last = some (.message m) →
      (x.kind = .activate → Draft.fold? m x.id true = none) ∧ (x.kind = .deactivate → Draft.fold? m x.id false = none)
  | _ => True

/-- A timeline, latest first, in which no directive could be taken in by the message before
it. -/
def Settled : List Statement → Prop
  | [] => True
  | item :: older => item.Stays older.head? ∧ Settled older

theorem Statement.stays_relabelItem (label : Option String) (last : Option Statement) (item : Statement) :
    (Draft.relabelItem label item).Stays last ↔ item.Stays last := by
  cases item <;> rfl

theorem Statement.stays_after_relabelItem (label : Option String) (last item : Statement) :
    item.Stays (some (Draft.relabelItem label last)) ↔ item.Stays (some last) := by
  cases last <;> cases item <;> simp [Stays, Draft.relabelItem]

theorem Settled.relabel {past : List Statement} (h : Settled past) (place : Nat) (label : Option String) :
    Settled (Draft.changeAt place (Draft.relabelItem label) past) := by
  induction past with
  | nil => trivial
  | cons item older ih =>
    unfold Draft.changeAt
    split
    · exact ⟨(Statement.stays_relabelItem label _ item).2 h.1, h.2⟩
    · refine ⟨?_, ih h.2⟩
      cases older with
      | nil => exact h.1
      | cons last older =>
        unfold Draft.changeAt
        split
        · exact (Statement.stays_after_relabelItem label last item).2 h.1
        · exact h.1

namespace Draft

theorem Step.settled {d d' : Draft} {e : Event} (h : Step d e d') (hs : Settled d.past) : Settled d'.past := by
  cases h with
  | mention | link | number | openBox | closeBox => exact hs
  | declare => simpa using hs
  | create => exact ⟨fun m hm => by simp, hs⟩
  | destroyAtLast | destroyLater => exact ⟨fun m hm => by simp, hs⟩
  | message =>
    rw [past_settle]
    exact ⟨trivial, hs⟩
  | note | openBlock | openBranch | closeBlock => exact ⟨trivial, hs⟩
  | fold h hp hm =>
    rw [hp] at hs
    exact ⟨trivial, hs.2⟩
  | @activation id activate r h hp =>
    refine ⟨fun m hm => ?_, hs⟩
    obtain ⟨older, ho⟩ := List.head?_eq_some_iff.1 hm
    have := hp m older ho
    cases activate <;> simp [this]
  | extend => exact hs.relabel _ _

/-! ## Events of a timeline -/

/-- No box is open. -/
def Boxless (d : Draft) : Prop := ∀ f ∈ d.frames, f.isBox = false

end Draft

/-- An event that leaves boxes and numbering alone. -/
def Event.IsTimed : Event → Prop
  | .declare _ _ _ | .openBox _ | .number _ => False
  | _ => True

namespace Draft

theorem Step.timed {d d' : Draft} {e : Event} (h : Step d e d') (he : e.IsTimed) :
    d'.boxes = d.boxes ∧ d'.autonumber = d.autonumber ∧ (d.Boxless → d'.Boxless) := by
  cases h with
  | declare | openBox | number => exact he.elim
  | message => exact ⟨boxes_settle _ _, autonumber_settle _ _, by simp [Boxless]⟩
  | openBlock =>
    refine ⟨rfl, rfl, fun hb f hf => ?_⟩
    rcases List.mem_cons.1 hf with rfl | hf
    · rfl
    · exact hb f hf
  | closeBox hf | closeBlock hf => exact ⟨rfl, rfl, fun hb f hm => hb f (by simp [hf, hm])⟩
  | _ => exact ⟨rfl, rfl, id⟩

/-- Events of a timeline leave boxes and numbering alone, and open no box. -/
theorem Steps.timed {d d' : Draft} {es : List Event} (hs : Steps d es d') (he : ∀ e ∈ es, e.IsTimed) :
    d'.boxes = d.boxes ∧ d'.autonumber = d.autonumber ∧ (d.Boxless → d'.Boxless) := by
  induction hs with
  | nil => exact ⟨rfl, rfl, id⟩
  | cons h _ ih =>
    obtain ⟨hb, hn, hf⟩ := h.timed (he _ (by simp))
    obtain ⟨hb', hn', hf'⟩ := ih fun e hm => he e (List.mem_cons_of_mem _ hm)
    exact ⟨hb'.trans hb, hn'.trans hn, hf' ∘ hf⟩

theorem Steps.aligned {d d' : Draft} {es : List Event} (hs : Steps d es d') (ha : d.Aligned) : d'.Aligned :=
  hs.keep (P := fun _ => True) (fun _ => Step.aligned) (fun _ _ => trivial) ha

/-- What the events of a script change besides participants. -/
structure Drawn (d d' : Draft) (boxes : List Box) : Prop where
  past : d'.past = d.past
  frames : d'.frames = d.frames
  autonumber : d'.autonumber = d.autonumber
  boxes : d'.boxes = boxes

theorem Drawn.trans {d d1 d2 : Draft} {boxes boxes' : List Box} (h : Drawn d d1 boxes) (h' : Drawn d1 d2 boxes') :
    Drawn d d2 boxes' :=
  ⟨h'.past.trans h.past, h'.frames.trans h.frames, h'.autonumber.trans h.autonumber, h'.boxes⟩

theorem Steps.drawn_links {d d' : Draft} {id : String} {ls : List Link} (hs : Steps d (ls.map (.link id)) d') :
    Drawn d d' d.boxes := by
  induction ls generalizing d with
  | nil => cases hs; exact ⟨rfl, rfl, rfl, rfl⟩
  | cons l ls ih =>
    cases hs with
    | @cons _ _ d1 _ _ h hs =>
      have h1 : Drawn d d1 d.boxes := by
        cases h
        exact ⟨rfl, rfl, rfl, rfl⟩
      exact h1.trans (h1.boxes ▸ ih hs)

end Draft

namespace Diagram

variable {m : Diagram} {past : List Statement}

theorem scriptEvents_append (xs ys : List Saying) : scriptEvents (xs ++ ys) = scriptEvents xs ++ scriptEvents ys :=
  List.flatMap_append

theorem scriptEvents_linkScript (p : Participant) (depth : Nat) :
    scriptEvents (p.linkScript depth) = (p.links.map Link.read).map (.link p.id) := by
  simp only [scriptEvents, Participant.linkScript, List.flatMap_map, List.map_map]
  exact List.flatMap_pure_eq_map _ _

/-- The events of a creation. -/
theorem scriptEvents_create {x : Directive} (hk : x.kind = .create) (depth : Nat) :
    scriptEvents (m.directiveScript depth x) =
      .create (m.created x.id).id (m.created x.id).kind (m.created x.id).label ::
        ((m.created x.id).links.map Link.read).map (.link (m.created x.id).id) := by
  rw [← scriptEvents_linkScript _ depth, directiveScript, hk]
  rfl

theorem itemScript_timed (opens : List OpenBlock) (item : Statement) :
    ∀ e ∈ scriptEvents (m.itemScript opens item), e.IsTimed := by
  intro e he
  cases item with
  | directive x =>
    cases hk : x.kind with
    | create =>
      rw [itemScript, scriptEvents_create hk] at he
      rcases List.mem_cons.1 he with rfl | he
      · trivial
      · obtain ⟨l, -, rfl⟩ := List.mem_map.1 he
        trivial
    | _ =>
      simp only [itemScript, directiveScript, hk] at he
      obtain rfl := List.mem_singleton.1 he
      trivial
  | message x | note n | blockStart s | blockBranch b | blockEnd e =>
    obtain rfl := List.mem_singleton.1 he
    trivial
  | _ => cases he

theorem pastScript_timed (past : List Statement) : ∀ e ∈ scriptEvents (m.pastScript past), e.IsTimed := by
  induction past with
  | nil => simp [pastScript, scriptEvents]
  | cons item older ih =>
    intro e he
    rw [pastScript, scriptEvents_append] at he
    rcases List.mem_append.1 he with he | he
    · exact ih e he
    · exact itemScript_timed _ item e he

/-! ## The timeline -/

/-- An item as it is read from its line. -/
def reread : Statement → Statement
  | .blockStart s => .blockStart { s with block := s.block.asShown }
  | item => item

theorem openAfter_reread (past : List Statement) : openAfter (past.map reread) = openAfter past := by
  induction past with
  | nil => rfl
  | cons item older ih => cases item <;> simp [openAfter, reread, ih, Block.asShown]

/-! One lemma per kind of item: `d` is a draft in which `older` stands, `d'` the draft after the
events of the item. -/

section Items

variable {d d' : Draft} {older : List Statement}

theorem nextOrder_replayed (hp : d.past = older.map reread) : (d.nextOrder : Int) = older.length := by
  simp [Draft.nextOrder, hp]

theorem openAfter_replayed (hp : d.past = older.map reread) : openAfter d.past = openAfter older :=
  hp ▸ openAfter_reread older

theorem follows_replayed {es : List Event} (hs : Draft.Steps d es d') (ha : d.Aligned) {item : Statement}
    (h : d'.past = item :: d.past) : item.Follows d.past :=
  (h ▸ (hs.aligned ha).history : History (item :: d.past)).1

theorem replay_message {x : Message}
    (hs : Draft.Steps d (scriptEvents (m.itemScript (openAfter older) (.message x))) d') (hp : d.past = older.map reread)
    (hf : x.order = older.length) (hl : x.Legible) : d'.past = .message x :: d.past := by
  cases Draft.Steps.single_iff.1 hs with
  | message =>
    have ht : x.text.map Text.normalized = x.text := by
      cases ht : x.text with
      | none => rfl
      | some t => exact congrArg some (hl.text t ht).normalized
    have hx : d.placed { x with order := -1 } = x := by
      simp only [Draft.placed, ht, nextOrder_replayed hp, ← hf]
    rw [Draft.past_settle, hx]

theorem replay_note {n : Note}
    (hs : Draft.Steps d (scriptEvents (m.itemScript (openAfter older) (.note n))) d') (hp : d.past = older.map reread)
    (hf : n.order = older.length) (hl : n.Legible) : d'.past = .note n :: d.past := by
  cases Draft.Steps.single_iff.1 hs with
  | note =>
    have hn : d.placedNote { n with order := -1 } = n := by
      simp only [Draft.placedNote, hl.text.normalized, nextOrder_replayed hp, ← hf]
    rw [hn]

/-- A message that stands last in the draft stood last in the timeline. -/
theorem head?_of_replayed {y : Message} {rest : List Statement} (hp : d.past = older.map reread)
    (h : d.past = .message y :: rest) : older.head? = some (.message y) := by
  rw [hp] at h
  obtain ⟨last, older', rfl, hlast, -⟩ := List.map_eq_cons_iff.1 h
  cases last <;> cases hlast
  rfl

/-- A directive that stays is added: the message before it, which could take it in, is the
same as before. -/
theorem replay_directive {x : Directive}
    (hs : Draft.Steps d (scriptEvents (m.itemScript (openAfter older) (.directive x))) d')
    (hp : d.past = older.map reread) (hf : x.order = older.length) (hstays : (Statement.directive x).Stays older.head?)
    (hk : x.kind = .create → (m.created x.id).id = x.id) : d'.past = .directive x :: d.past := by
  have hx : ∀ {kind id}, x.kind = kind → x.id = id → d.directive kind id = .directive x := by
    rintro _ _ rfl rfl
    simp only [Draft.directive, nextOrder_replayed hp, ← hf]
  cases hkind : x.kind with
  | create =>
    rw [itemScript, scriptEvents_create hkind] at hs
    cases hs with
    | cons h hs =>
      have hlinks := (Draft.Steps.drawn_links hs).past
      cases h with
      | create => rw [hlinks, hx hkind (hk hkind).symm]
  | destroy =>
    simp only [itemScript, directiveScript, hkind] at hs
    cases Draft.Steps.single_iff.1 hs with
    | destroyAtLast | destroyLater => rw [hx hkind rfl]
  | activate =>
    simp only [itemScript, directiveScript, hkind] at hs
    cases Draft.Steps.single_iff.1 hs with
    | fold _ he hm => simp [(hstays _ (head?_of_replayed hp he)).1 hkind] at hm
    | activation => rw [← hx hkind rfl]; rfl
  | deactivate =>
    simp only [itemScript, directiveScript, hkind] at hs
    cases Draft.Steps.single_iff.1 hs with
    | fold _ he hm => simp [(hstays _ (head?_of_replayed hp he)).2 hkind] at hm
    | activation => rw [← hx hkind rfl]; rfl

theorem replay_blockStart {s : BlockStart}
    (hs : Draft.Steps d (scriptEvents (m.itemScript (openAfter older) (.blockStart s))) d')
    (hp : d.past = older.map reread) (hf : (Statement.blockStart s).Follows older) :
    d'.past = .blockStart { s with block := s.block.asShown } :: d.past := by
  cases Draft.Steps.single_iff.1 hs with
  | openBlock =>
    simp only [nextOrder_replayed hp, ← hf.1]
    rfl

theorem replay_blockBranch {b : BlockBranch}
    (hs : Draft.Steps d (scriptEvents (m.itemScript (openAfter older) (.blockBranch b))) d') (ha : d.Aligned)
    (hp : d.past = older.map reread) (hf : (Statement.blockBranch b).Follows older) :
    d'.past = .blockBranch b :: d.past := by
  obtain ⟨ho, o, outer, hopens, -, hblock, hindex⟩ := hf
  cases Draft.Steps.single_iff.1 hs with
  | openBranch =>
    -- Both drafts have the same block open, and a branch is numbered by the block it stands in.
    obtain ⟨-, o', outer', hopens', -, hblock', hindex'⟩ := follows_replayed hs ha rfl
    rw [openAfter_replayed hp, hopens] at hopens'
    obtain ⟨rfl, -⟩ := List.cons.inj hopens'
    dsimp only at hblock' hindex'
    rw [hindex', hblock', ← hblock, ← hindex, nextOrder_replayed hp, ← ho]

theorem replay_blockEnd {e : BlockEnd}
    (hs : Draft.Steps d (scriptEvents (m.itemScript (openAfter older) (.blockEnd e))) d') (ha : d.Aligned)
    (hb : d.Boxless) (hp : d.past = older.map reread) (hf : (Statement.blockEnd e).Follows older) :
    d'.past = .blockEnd e :: d.past := by
  obtain ⟨ho, o, outer, hopens, hblock⟩ := hf
  cases Draft.Steps.single_iff.1 hs with
  | closeBox hfr hbox =>
    have := hb _ (hfr ▸ List.mem_cons_self)
    simp [Frame.isBox, hbox] at this
  | closeBlock =>
    obtain ⟨-, o', outer', hopens', hblock'⟩ := follows_replayed hs ha rfl
    rw [openAfter_replayed hp, hopens] at hopens'
    obtain ⟨rfl, -⟩ := List.cons.inj hopens'
    dsimp only at hblock'
    simp only [hblock', ← hblock, nextOrder_replayed hp, ← ho]

/-- The events of an item that can be read add the item to the timeline. -/
theorem replay_item {item : Statement} (hs : Draft.Steps d (scriptEvents (m.itemScript (openAfter older) item)) d')
    (ha : d.Aligned) (hb : d.Boxless) (hp : d.past = older.map reread) (hf : item.Follows older) (hl : item.Legible)
    (hstays : item.Stays older.head?) (hk : ∀ x, item = .directive x → x.kind = .create → (m.created x.id).id = x.id) :
    d'.past = (item :: older).map reread := by
  rw [List.map_cons, ← hp]
  cases item with
  | message x => exact replay_message hs hp hf hl
  | note n => exact replay_note hs hp hf hl
  | directive x => exact replay_directive hs hp hf hstays (hk x rfl)
  | blockStart s => exact replay_blockStart hs hp hf
  | blockBranch b => exact replay_blockBranch hs ha hp hf
  | blockEnd e => exact replay_blockEnd hs ha hb hp hf
  | _ => exact hf.elim

end Items

/-- The events of a timeline lead to the timeline. -/
theorem replay_past {d d' : Draft} (hh : History past) (hl : ∀ item ∈ past, item.Legible) (hsettled : Settled past)
    (hk : ∀ x, .directive x ∈ past → x.kind = .create → (m.created x.id).id = x.id)
    (hs : Draft.Steps d (scriptEvents (m.pastScript past)) d') (ha : d.Aligned) (hb : d.Boxless) (hp : d.past = []) :
    d'.past = past.map reread := by
  -- The script of a timeline is that of the older items, followed by the latest one.
  induction past generalizing d' with
  | nil =>
    cases hs
    exact hp
  | cons item older ih =>
    rw [pastScript, scriptEvents_append] at hs
    obtain ⟨d1, hs1, hs2⟩ := hs.split
    have hpast := ih hh.2 (fun x hx => hl x (List.mem_cons_of_mem item hx)) hsettled.2
      (fun x hx => hk x (List.mem_cons_of_mem _ hx)) hs1
    exact replay_item hs2 (hs1.aligned ha) ((hs1.timed (pastScript_timed older)).2.2 hb) hpast hh.1 (hl item (by simp))
      hsettled.1 fun x hx => hk x (by simp [hx])

end Diagram

end Lifeline
