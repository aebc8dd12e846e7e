import Lifeline.Proofs.Parts
import Lifeline.Proofs.Quiet
import Lifeline.Proofs.Unnumbered
/-!
# Blocks of diagrams that are built by hand

The timeline of a diagram that was built by hand may start and end blocks in any order. The
text of such a diagram is balanced nevertheless: it is read back into the blocks that were
started, nested as their ends match up (`balanced_read`). Every line is followed through the
reading by what it does to the open regions and to the brackets of the draft, whatever else it
holds and whether or not it is refused (`Session.Moves`).
-/

namespace Lifeline

open Text

/-! ## Lines of a source -/

/-- The lines that say something among lines of a source, trimmed, the first of which has the
given number. -/
def sourceLines (n : Nat) (texts : List String) : List SourceLine :=
  ((texts.map fun text => trim text.toList).zipIdx n).filterMap fun (line, number) =>
    if isSignificant line then some ⟨number, String.ofList line⟩ else none

theorem sourceLines_append (n : Nat) (texts texts' : List String) :
    sourceLines n (texts ++ texts') = sourceLines n texts ++ sourceLines (n + texts.length) texts' := by
  simp [sourceLines, List.zipIdx_append]

theorem sourceLines_singleton {text : String} (h : isSignificant (trim text.toList) = true) (n : Nat) :
    sourceLines n [text] = [⟨n, trimmed text⟩] := by
  simp [sourceLines, h, trimmed]

theorem sourceLines_empty {text : String} (h : isSignificant (trim text.toList) = false) (n : Nat) :
    sourceLines n [text] = [] := by
  simp [sourceLines, h]

/-- A text of lines without a break is read as these lines. -/
theorem significantLines_sourceLines (layout : Layout) {lines : List Line} (h : ∀ l ∈ lines, OneLine l.text.toList) :
    significantLines (Diagram.textOf layout lines) = sourceLines 1 (lines.map Line.text) := by
  have hlines : (lines.flatMap fun l => (splitLines (l.text.toList ++ ['\n'])).map trim) =
      (lines.map Line.text).map fun text => trim text.toList := by
    rw [List.map_map, List.map_eq_flatMap]
    refine List.flatMap_congr fun l hl => ?_
    rw [splitLines_append (h l hl)]
    rfl
  rw [significantLines_eq, trim_splitLines_textOf, hlines]
  rfl

/-! ## Refusals -/

theorem Frames.branch_ne_nothingOpen {α : Type} (fs : Frames α) (keyword : String) :
    fs.branch keyword ≠ .error .nothingOpen := by
  unfold branch
  split
  · nofun
  · split
    · nofun
    · split <;> nofun

/-- Only an end is refused because nothing is open. -/
theorem Draft.not_quiet_of_nothingOpen {d : Draft} {x : Statement} {line : Option Int} (hx : x.Sound)
    (h : (d.feed x line).result = .error (.frame .nothingOpen)) : x.isQuiet = false := by
  have hnone := (feed_refused hx h).1
  cases x with
  | blockStart | blockEnd | boxStart => rfl
  | blockBranch b =>
    unfold feed openBranch at h
    dsimp only at h
    split at h
    · rename_i e he
      cases h
      exact absurd he (d.frames.branch_ne_nothingOpen b.keyword)
    · cases h
  | _ => cases hnone

/-! ## Moves of a session -/

namespace Session

variable {s : Session}

/-- A step of a lenient reading that goes on, leaves the given regions open, adds the given
brackets to the timeline and reports nothing to be unbalanced. -/
structure Moves (s : Session) (step : Step) (regions : List Region) (added : List Bracket) : Prop where
  goes : step.2 = none
  regions : step.1.draft.regions = regions
  brackets : step.1.draft.brackets = s.draft.brackets ++ added
  aligned : s.draft.Aligned → step.1.draft.Aligned
  told : ∀ x ∈ step.1.diagnostics, x ∈ s.diagnostics ∨ x.kind ≠ .unbalancedBlock

theorem Moves.stay (s : Session) : s.Moves (s, none) s.draft.regions [] where
  goes := rfl
  regions := rfl
  brackets := (List.append_nil _).symm
  aligned := id
  told := fun _ => .inl

theorem Moves.andThen {step : Step} {regions regions' : List Region} {added added' : List Bracket} {n : Session → Step}
    (h : s.Moves step regions added) (hn : step.1.Moves (n step.1) regions' added') :
    s.Moves (andThen step n) regions' (added ++ added') := by
  rw [andThen_of_none h.goes]
  exact
    { goes := hn.goes
      regions := hn.regions
      brackets := by rw [hn.brackets, h.brackets, List.append_assoc]
      aligned := fun ha => hn.aligned (h.aligned ha)
      told := fun x hx => (hn.told x hx).elim (h.told x) .inr }

/-- A step of quiet events that reports nothing to be unbalanced. -/
theorem Moves.of_quiet {es : List Event} {step : Step} (hs : Draft.Steps s.draft es step.1.draft)
    (hq : ∀ e ∈ es, e.isQuiet = true) (hgo : step.2 = none)
    (ht : ∀ x ∈ step.1.diagnostics, x ∈ s.diagnostics ∨ x.kind ≠ .unbalancedBlock) :
    s.Moves step s.draft.regions [] where
  goes := hgo
  regions := (hs.quiet hq).1
  brackets := by rw [(hs.quiet hq).2, List.append_nil]
  aligned := hs.keep (P := fun _ => True) (fun _ => Draft.Step.aligned) fun _ _ => trivial
  told := ht

theorem told_report {x : Diagnostic} (hx : x.kind ≠ .unbalancedBlock) :
    ∀ y ∈ (s.report false x).1.diagnostics, y ∈ s.diagnostics ∨ y.kind ≠ .unbalancedBlock := by
  intro y hy
  rcases List.mem_append.1 hy with hy | hy
  · exact .inl hy
  · exact .inr (List.mem_singleton.1 hy ▸ hx)

/-- A statement that opens and closes nothing leaves regions and brackets alone, whether it is
taken in or refused. -/
theorem feed_quiet (s : Session) (line : SourceLine) {x : Statement} (hx : x.Sound) (hq : x.isQuiet = true) :
    s.Moves (s.feed false line x) s.draft.regions [] := by
  rcases feed_cases s.draft line hx with ⟨a, ha, hs⟩ | ⟨he, -⟩ | ⟨f, -, hs⟩
  · rw [hs s false rfl]
    exact .of_quiet (Draft.steps_feed ha) (Operation.events_quiet hq s.draft) rfl fun _ => .inl
  · exact absurd hq (by simp [Draft.not_quiet_of_nothingOpen hx he])
  · rw [hs s false rfl]
    refine .of_quiet (Draft.steps_extendLabel s.draft line.text) ?_ rfl (told_report nofun)
    intro e he
    split at he
    · obtain rfl := List.mem_singleton.1 he
      rfl
    · cases he

/-- A quiet line is read on from. -/
theorem readLine_quiet (s : Session) {line : SourceLine} (h : Quiet line.text) :
    s.Moves (s.readLine false line) s.draft.regions [] := by
  unfold readLine
  cases hx : Statement.ofLine line.text with
  | ok x => exact s.feed_quiet line (Statement.sound_of_ofLine hx) (h.quiet x hx)
  | error e =>
    have he : e.isSyntax = true := by
      cases he : e.isSyntax with
      | true => rfl
      | false => exact absurd (Statement.breaks_iff.1 ⟨hx, he⟩) (h.unbroken e)
    simp only [he, if_true]
    exact .of_quiet .nil nofun rfl (told_report nofun)

/-- A line of a statement that comes to a single event, where that event fits. -/
theorem readLine_event (s : Session) {line : SourceLine} {x : Statement} {e : Event} {regions : List Region}
    (hx : Statement.ofLine line.text = .ok x) (he : Operation.statementEvents s.draft x = [e])
    (hr : Region.enter s.draft.regions x = some regions) :
    s.Moves (s.readLine false line) regions (e.brackets s.draft.regions) := by
  have hsound := Statement.sound_of_ofLine hx
  obtain ⟨hgo, hregions⟩ := feed_fits line hsound hr
  have hstep : Draft.Step s.draft e (s.feed false line x).1.draft := by
    obtain ⟨a, ha, hs⟩ := feed_taken false line hsound hr
    rw [hs]
    exact Draft.Steps.single_iff.1 (he ▸ Draft.steps_feed ha)
  rw [readLine_of_ok hx]
  exact
    { goes := hgo.1
      regions := hregions
      brackets := hstep.brackets_eq
      aligned := hstep.aligned
      told := fun y hy => .inl (by simpa [hgo.2] using hy) }

end Session

/-! ## Lines that are read on from -/

/-- Lines that take any session with the given open regions to others, and put brackets into
its timeline. -/
structure Takes (texts : List String) (before after : List Region) (added : List Bracket) : Prop where
  oneLine : ∀ text ∈ texts, OneLine text.toList
  moves : ∀ (n : Nat) (s : Session), s.draft.regions = before →
    s.Moves (s.readLines false (sourceLines n texts)) after added

namespace Takes

variable {texts texts' : List String} {text : String} {before between after regions : List Region}
  {added added' : List Bracket}

theorem nil : Takes [] regions regions [] where
  oneLine := nofun
  moves := by
    rintro n s rfl
    exact .stay s

theorem append (h : Takes texts before between added) (h' : Takes texts' between after added') :
    Takes (texts ++ texts') before after (added ++ added') where
  oneLine := fun text ht => (List.mem_append.1 ht).elim (h.oneLine text) (h'.oneLine text)
  moves := fun n s hs => by
    have hfirst := h.moves n s hs
    rw [sourceLines_append, Session.readLines_append]
    exact hfirst.andThen (h'.moves _ _ hfirst.regions)

theorem cons (h : Takes [text] before between added) (h' : Takes texts between after added') :
    Takes (text :: texts) before after (added ++ added') := h.append h'

/-- A single line that says something. -/
theorem of_line (ho : OneLine text.toList) (hs : isSignificant (trim text.toList) = true)
    (h : ∀ (line : SourceLine) (s : Session), line.text = trimmed text → s.draft.regions = before →
      s.Moves (s.readLine false line) after added) : Takes [text] before after added where
  oneLine := fun _ ht => List.mem_singleton.1 ht ▸ ho
  moves := fun n s hr => by
    have hline := h ⟨n, trimmed text⟩ s rfl hr
    have hall := hline.andThen (n := fun s => s.readLines false []) (hline.regions ▸ Session.Moves.stay _)
    rw [sourceLines_singleton hs, Session.readLines]
    rwa [List.append_nil] at hall

/-- A line without a bracket. -/
theorem silent (h : Silent text) (regions : List Region) : Takes [text] regions regions [] := by
  cases hs : isSignificant (trim text.toList) with
  | true =>
    refine of_line h.oneLine hs ?_
    rintro line s hl rfl
    exact s.readLine_quiet (hl ▸ h.quiet)
  | false =>
    refine ⟨fun _ ht => List.mem_singleton.1 ht ▸ h.oneLine, ?_⟩
    rintro n s rfl
    rw [sourceLines_empty hs]
    exact .stay s

/-- Lines without brackets. -/
theorem silents {lines : List Line} (h : ∀ l ∈ lines, Silent l.text) (regions : List Region) :
    Takes (lines.map Line.text) regions regions [] := by
  induction lines with
  | nil => exact nil
  | cons l lines ih =>
    obtain ⟨hl, hlines⟩ := List.forall_mem_cons.1 h
    exact (silent hl regions).cons (ih hlines)

theorem opening {kind : BlockKind} (h : Headed kind.keyword text) (regions : List Region) :
    Takes [text] regions (.block kind :: regions) [.opening kind] := by
  obtain ⟨b, rfl, hx⟩ := h.ofLine_block
  refine of_line h.oneLine h.significant ?_
  rintro line s hl rfl
  exact s.readLine_event (hl ▸ hx) rfl rfl

theorem box (h : Headed "box" text) (regions : List Region) : Takes [text] regions (.box :: regions) [] := by
  obtain ⟨x, hx⟩ := h.ofLine_box
  refine of_line h.oneLine h.significant ?_
  rintro line s hl rfl
  exact s.readLine_event (hl ▸ hx) rfl rfl

/-- An end closes the innermost region, which is a bracket if it is a block. -/
theorem ending (region : Region) (regions : List Region) :
    Takes [endWord] (region :: regions) regions (Event.close.brackets (region :: regions)) := by
  refine of_line (by decide) (by decide) fun line s hl hr => ?_
  have hx : Statement.ofLine line.text = .ok (.blockEnd {}) := hl ▸ reads_end.ofLine
  rw [← hr]
  exact s.readLine_event hx rfl (by rw [hr]; rfl)

end Takes

/-! ## Diagrams that were built by hand -/

/-- An item of a timeline that was built by hand: one with a place in a timeline and with strings
on one line. No blank stands in the id of a message's source, a note beside a participant has
a target, and a branch has a branch keyword. -/
def Statement.HandBuilt : Statement → Prop
  | .message m => Solid m.source.id.toList ∧ OneLine m.target.id.toList ∧ ∀ t ∈ m.text, OneLine t.toList
  | .note n => (n.placement ≠ .over → n.targets ≠ []) ∧ OneLine n.text.toList ∧ ∀ id ∈ n.targets, OneLine id.toList
  | .directive x => OneLine x.id.toList
  | .blockStart s => (∀ l ∈ s.block.label, OneLine l.toList) ∧ ∀ c ∈ s.block.color, OneLine c.toList
  | .blockBranch b => (BlockKind.ofBranchKeyword? b.keyword).isSome = true ∧ ∀ l ∈ b.label, OneLine l.toList
  | .blockEnd _ => True
  | _ => False

/-- A diagram that was built by hand. The items of its timeline may stand in any order. -/
structure Diagram.HandBuilt (m : Diagram) : Prop where
  participants : ∀ p ∈ m.participants, p.Breakless
  boxes : ∀ b ∈ m.boxes, (∀ l ∈ b.label, OneLine l.toList) ∧ ∀ c ∈ b.color, OneLine c.toList
  items : ∀ item ∈ m.timeline, item.HandBuilt

theorem Note.line_of_target {n : Note} (h : n.placement ≠ .over → n.targets ≠ []) : ∃ text, n.line = .ok text := by
  unfold line targetText?
  cases hp : n.placement with
  | left | right =>
    obtain ⟨id, ids, hids⟩ := List.exists_cons_of_ne_nil (h (by simp [hp]))
    rw [hids]
    exact ⟨_, rfl⟩
  | _ => exact ⟨_, rfl⟩

namespace Diagram.HandBuilt

variable {m : Diagram}

/-! ### Declarations -/

/-- A box is closed where it was opened. -/
theorem boxed (h : m.HandBuilt) (place : Nat) {box : Box} (hb : box ∈ m.boxes) {inside : List Participant}
    (hin : ∀ p ∈ inside, p ∈ m.participants) (regions : List Region) :
    Takes ((Part.boxed place box inside).lines.map Line.text) regions regions [] := by
  obtain ⟨hl, hc⟩ := h.boxes box hb
  have hsilent : ∀ l ∈ inside.map (fun p => (⟨2, p.declarationLine⟩ : Line)), Silent l.text := by
    intro l hl
    obtain ⟨p, hp, rfl⟩ := List.mem_map.1 hl
    exact (h.participants p (hin p hp)).silent_declaration
  have hall := (Takes.box (Headed.heading hl hc) regions).append
    ((Takes.silents hsilent (.box :: regions)).append (Takes.ending .box regions))
  simpa [Part.lines, Event.brackets] using hall

theorem part (h : m.HandBuilt) {layout : Layout} {part : Part} (hs : m.Sound layout part) (regions : List Region) :
    Takes (part.lines.map Line.text) regions regions [] := by
  cases part with
  | alone p => exact (Takes.silent (h.participants p hs.1).silent_declaration regions).cons .nil
  | boxed place box inside =>
    exact h.boxed place (List.mem_of_getElem? hs.1) (fun p hp => (hs.2.2 p hp).1) regions

theorem declarationLines (h : m.HandBuilt) (layout : Layout) (regions : List Region) :
    Takes ((m.declarationLines layout).map Line.text) regions regions [] := by
  obtain ⟨parts, hd, hlines⟩ := m.declarationLines_parts layout
  have hall : ∀ part ∈ parts ++ (m.undrawn parts).map Part.empty, Takes (part.lines.map Line.text) regions regions [] := by
    intro part hpart
    rcases List.mem_append.1 hpart with hpart | hpart
    · exact h.part (hd.sound part hpart) regions
    · obtain ⟨e, he, rfl⟩ := List.mem_map.1 hpart
      have hbox := List.mem_zipIdx_iff_getElem?.1 (List.mem_filter.1 he).1
      exact h.boxed e.2 (List.mem_of_getElem? hbox) (List.forall_mem_nil _) regions
  rw [hlines]
  generalize parts ++ (m.undrawn parts).map Part.empty = all at hall
  induction all with
  | nil => exact .nil
  | cons part all ih =>
    rw [List.flatMap_cons, List.map_append]
    exact (hall part List.mem_cons_self).append (ih fun q hq => hall q (List.mem_cons_of_mem part hq))

theorem linkLines (h : m.HandBuilt) : ∀ l ∈ m.linkLines, Silent l.text := by
  intro l hl
  obtain ⟨p, hp, hl⟩ := List.mem_flatMap.1 hl
  obtain ⟨text, ht, rfl⟩ := List.mem_map.1 hl
  exact (h.participants p (List.mem_filter.1 hp).1).silent_links text ht

/-! ### The timeline -/

theorem directiveLines (h : m.HandBuilt) (depth : Nat) {x : Directive} (hid : OneLine x.id.toList) :
    ∀ l ∈ m.directiveLines depth x, Silent l.text := by
  intro l hl
  unfold Diagram.directiveLines at hl
  split at hl
  · have hp : ((m.participant? x.id).getD { id := x.id }).Breakless := by
      cases hp : m.participant? x.id with
      | none => exact ⟨hid, nofun, nofun⟩
      | some p => exact h.participants p (List.mem_of_find?_eq_some hp)
    rcases List.mem_cons.1 hl with rfl | hl
    · exact hp.silent_creation
    · obtain ⟨text, ht, rfl⟩ := List.mem_map.1 hl
      exact hp.silent_links text ht
  · obtain rfl := List.mem_singleton.1 hl
    exact silent_directive hid

/-- A further branch is written with a branch keyword, its own or that of the open block. -/
theorem branchWord_isSome (kinds : List BlockKind) {keyword : String}
    (hk : (BlockKind.ofBranchKeyword? keyword).isSome = true) :
    (BlockKind.ofBranchKeyword? (branchWord kinds keyword)).isSome = true := by
  unfold branchWord
  cases kinds with
  | nil => exact hk
  | cons kind kinds => cases kind <;> first | rfl | exact hk

theorem closingLines (kinds : List BlockKind) : Takes ((Diagram.closingLines kinds.length).map Line.text) (kinds.map .block) []
    (List.replicate kinds.length .closing) := by
  induction kinds with
  | nil => exact .nil
  | cons kind kinds ih => exact (Takes.ending (.block kind) (kinds.map .block)).cons ih

/-- The lines of a timeline are written, and put the brackets of the timeline into a draft that
match up. -/
theorem timelineLines (h : m.HandBuilt) {items : List Statement} (hi : ∀ item ∈ items, item.HandBuilt)
    (kinds : List BlockKind) : ∃ lines, m.timelineLines kinds items = .ok lines ∧
      Takes (lines.map Line.text) (kinds.map .block) [] (Bracket.balanced kinds.length (bracketsOf items)) := by
  -- On the timeline: the writer's open blocks are the regions that are open in the draft.
  induction items generalizing kinds with
  | nil => exact ⟨_, rfl, closingLines kinds⟩
  | cons item items ih =>
    obtain ⟨hitem, hitems⟩ := List.forall_mem_cons.1 hi
    have hsilent : ∀ first : List Line, (∀ l ∈ first, Silent l.text) → item.bracket? = none →
        m.timelineLines kinds (item :: items) = (m.timelineLines kinds items).map (first ++ ·) →
        ∃ lines, m.timelineLines kinds (item :: items) = .ok lines ∧ Takes (lines.map Line.text) (kinds.map .block) []
          (Bracket.balanced kinds.length (bracketsOf (item :: items))) := by
      intro first hfirst hb he
      obtain ⟨lines, hlines, ht⟩ := ih hitems kinds
      refine ⟨first ++ lines, by rw [he, hlines]; rfl, ?_⟩
      rw [List.map_append, bracketsOf, List.filterMap_cons_none hb]
      exact (Takes.silents hfirst (kinds.map .block)).append ht
    cases item with
    | message x => exact hsilent [⟨_, x.line⟩] (by simpa using Message.silent hitem.1 hitem.2.1 hitem.2.2) rfl rfl
    | note n =>
      obtain ⟨hplace, htext, hids⟩ := hitem
      obtain ⟨text, hline⟩ := n.line_of_target hplace
      refine hsilent [⟨kinds.length + 1, text⟩] (by simpa using Note.silent hline htext hids) rfl ?_
      simp only [Diagram.timelineLines, hline]
      rfl
    | directive x => exact hsilent _ (h.directiveLines _ hitem) rfl rfl
    | blockStart s =>
      obtain ⟨lines, hlines, ht⟩ := ih hitems (s.block.kind :: kinds)
      refine ⟨⟨kinds.length + 1, s.block.openingLine⟩ :: lines, by simp only [Diagram.timelineLines, hlines]; rfl, ?_⟩
      exact (Takes.opening (Headed.opening hitem.1 hitem.2) (kinds.map .block)).cons ht
    | blockBranch b =>
      exact hsilent [⟨_, joinParts [some (branchWord kinds b.keyword), b.label]⟩]
        (by simpa using silent_branch (branchWord_isSome kinds hitem.1) hitem.2) rfl rfl
    | blockEnd e =>
      cases kinds with
      | nil => exact ih hitems []
      | cons kind kinds =>
        obtain ⟨lines, hlines, ht⟩ := ih hitems kinds
        refine ⟨⟨kinds.length + 1, endWord⟩ :: lines, by simp only [Diagram.timelineLines, hlines]; rfl, ?_⟩
        exact (Takes.ending (.block kind) (kinds.map .block)).cons ht
    | _ => exact hitem.elim

/-- The text of a diagram that was built by hand is the header and lines that put its brackets
into a draft so that they match up. -/
theorem lines (h : m.HandBuilt) (layout : Layout) : ∃ body, m.lines layout = .ok (⟨0, headerWord⟩ :: body) ∧
    Takes (body.map Line.text) [] [] (Bracket.balanced 0 (bracketsOf m.timeline)) := by
  obtain ⟨timeline, ht, htakes⟩ := h.timelineLines h.items []
  have hnumber : Takes ((if m.autonumber then [(⟨1, autonumberWord⟩ : Line)] else []).map Line.text) [] [] [] := by
    split
    · exact .silent silent_autonumber []
    · exact .nil
  have hall := ((hnumber.append (h.declarationLines layout [])).append (.silents h.linkLines [])).append htakes
  simp only [← List.map_append] at hall
  exact ⟨_, by simp only [Diagram.lines, ht]; rfl, hall⟩

end Diagram.HandBuilt

/-! ## Main theorem -/

/-- A diagram that was built by hand, with the items of its timeline in any order, is written,
and its text is read back. Nothing in it is reported to be unbalanced. The text has one block
for every start in the timeline, of the same kind and in the same order, and each stands in the
block that it stands in when the ends of the timeline are matched last in, first out, and the
ends without a block are left out. -/
theorem balanced_read {m : Diagram} (h : m.HandBuilt) (layout : Layout) : ∃ text m',
    m.write layout = .ok text ∧ Diagram.read text false = .ok m' ∧
    (∀ x ∈ m'.diagnostics, x.kind ≠ .unbalancedBlock) ∧
    (Node.allBlocks m'.statements).map Block.kind = (bracketsOf m.timeline).filterMap Bracket.kind? ∧
    Node.allNesting none 0 m'.statements = Bracket.nesting [] 0 (bracketsOf m.timeline) := by
  obtain ⟨body, hlines, htakes⟩ := h.lines layout
  have hone : ∀ l ∈ ⟨0, headerWord⟩ :: body, OneLine l.text.toList :=
    List.forall_mem_cons.2 ⟨plain_header.oneLine, fun l hl => htakes.oneLine _ (List.mem_map_of_mem hl)⟩
  have hsource : significantLines (Diagram.textOf layout (⟨0, headerWord⟩ :: body)) =
      ⟨1, headerWord⟩ :: sourceLines 2 (body.map Line.text) := by
    have hheader := sourceLines_append 1 [headerWord] (body.map Line.text)
    rw [significantLines_sourceLines layout hone]
    exact hheader
  have hmoves := htakes.moves 2 {} rfl
  generalize hstep : ({} : Session).readLines false (sourceLines 2 (body.map Line.text)) = step at hmoves
  have hframes : step.1.draft.frames = [] := List.map_eq_nil_iff.1 hmoves.regions
  have hbody : Session.andThen (({} : Session).readLines false (sourceLines 2 (body.map Line.text)))
      (fun s => s.reportOpen false s.draft.frames.reverse) = (step.1, none) := by
    rw [hstep, Session.andThen_of_none hmoves.goes, hframes]
    rfl
  have hnesting : Node.allNesting none 0 step.1.finish.2.statements = Bracket.nesting [] 0 (bracketsOf m.timeline) := by
    have htree := (hmoves.aligned Draft.aligned_empty).nesting_tree hframes (some step.1.draft.nextOrder)
    rw [hmoves.brackets] at htree
    exact htree.trans (Bracket.nesting_balanced [] 0 (bracketsOf m.timeline))
  have hread := Diagram.read_eq hsource kind_header hbody rfl
  refine ⟨_, step.1.finish.2, by rw [Diagram.write, hlines]; rfl, hread, ?_, ?_, hnesting⟩
  · intro x hx
    exact (hmoves.told x hx).resolve_left List.not_mem_nil
  · rw [← Node.allNesting_kinds none 0, hnesting, Bracket.nesting_kinds]

/-- An end without a block, a branch that fits no block, and two blocks without an end. -/
def orphans : Diagram where
  participants := [{ id := "A", label := some "Alice" }]
  timeline := [.blockEnd {}, .blockStart { block := { kind := .loop, label := some "daily" } },
    .blockBranch { keyword := "else" }, .message { source := { id := "A" }, target := { id := "B" } },
    .blockStart { block := { kind := .alt } }, .blockEnd {}, .blockEnd {}, .blockEnd {},
    .note { placement := .left, targets := ["A"] }, .blockStart { block := { kind := .rect, color := some "Aqua" } },
    .blockStart { block := { kind := .opt } }]

theorem orphans_handBuilt : orphans.HandBuilt where
  participants := by
    rintro p (_ | ⟨_, ⟨⟩⟩)
    exact ⟨by decide, by decide, nofun⟩
  boxes := nofun
  items := by
    simp only [orphans, List.forall_mem_cons, Statement.HandBuilt, List.not_mem_nil, false_implies, implies_true, and_true]
    decide

/-- The loop is around the alternative, and the rectangle around the option. -/
theorem balanced_read_orphans : orphans.HandBuilt ∧ ∃ text m', orphans.write {} = .ok text ∧
    Diagram.read text false = .ok m' ∧ (∀ x ∈ m'.diagnostics, x.kind ≠ .unbalancedBlock) ∧
    Node.allNesting none 0 m'.statements = [(.loop, none), (.alt, some 0), (.rect, none), (.opt, some 2)] :=
  have ⟨text, m', hw, hr, ht, _, hn⟩ := balanced_read orphans_handBuilt {}
  ⟨orphans_handBuilt, text, m', hw, hr, ht, hn.trans (by decide)⟩

end Lifeline
