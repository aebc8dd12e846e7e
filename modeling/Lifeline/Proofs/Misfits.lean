import Lifeline.Proofs.Formatting
import Lifeline.Proofs.Permanence
import Lifeline.Proofs.Rectangles
/-!
# Branches that do not fit

The line of a branch that does not fit the innermost open block is kept in the label of the
block's current branch. From there on the label holds it, whatever comes later, and the line
that opens the branch shows it in the text, unless the block is a rectangle: then the text is
the one of a source without the line (`Diagram.kept_text_is_written`).
-/

namespace Lifeline

open History Text

/-! ## Labels -/

namespace Statement

/-- Whether the line of an item shows a label. -/
def showsLabel : Statement → Bool
  | .blockStart s => s.block.kind != .rect
  | .blockBranch _ => true
  | _ => false

/-- An item opens a branch with a text in its label. -/
def Carries (item : Statement) (text : String) : Prop := ∃ label ∈ item.branchLabel?, text.toList <:+: label.toList

instance (item : Statement) (text : String) : Decidable (item.Carries text) :=
  inferInstanceAs (Decidable (∃ label ∈ _, _))

theorem branchLabel?_bare (item : Statement) : item.bare.branchLabel? = item.branchLabel? := by cases item <;> rfl

theorem showsLabel_bare (item : Statement) : item.bare.showsLabel = item.showsLabel := by cases item <;> rfl

theorem showsLabel_growItem (text : String) (item : Statement) : (Draft.growItem text item).showsLabel = item.showsLabel := by
  cases item <;> rfl

theorem branchLabel?_growItem {item : Statement} {start : Int} (h : Draft.opensBranchOf start item = true) (text : String) :
    (Draft.growItem text item).branchLabel? = Draft.growLabel text item.branchLabel? := by
  cases item <;> first | rfl | cases h

end Statement

namespace Draft

/-- A label that a text is added to ends in the text. -/
theorem suffix_growLabel (text : String) (label : Option String) : ∃ l ∈ growLabel text label, text.toList <:+ l.toList := by
  unfold growLabel
  split
  · exact ⟨text, rfl, List.suffix_rfl⟩
  · rename_i label
    split
    · exact ⟨text, rfl, List.suffix_rfl⟩
    · exact ⟨_, rfl, label.toList ++ [' '], by simp⟩

/-- A label that a text is added to still holds what it held. -/
theorem prefix_growLabel (text : String) {label : Option String} {l : String} (h : l ∈ label) :
    ∃ l' ∈ growLabel text label, l.toList <+: l'.toList := by
  cases h
  unfold growLabel
  dsimp only
  split
  · rename_i hl
    exact ⟨text, rfl, by simp [String.isEmpty_iff.1 hl]⟩
  · exact ⟨_, rfl, ' ' :: text.toList, by simp⟩

/-- An item that carries a text still does with a longer label. -/
theorem carries_growItem {item : Statement} {text : String} (h : item.Carries text) (more : String) :
    (growItem more item).Carries text := by
  obtain ⟨l, hl, hin⟩ := h
  cases item with
  | blockStart | blockBranch =>
    obtain ⟨l', hl', hp⟩ := prefix_growLabel more hl
    exact ⟨l', hl', hin.trans hp.isInfix⟩
  | _ => cases hl

theorem exists_changeFirst {p : Statement → Bool} {past : List Statement} (change : Statement → Statement)
    (h : ∃ item ∈ past, p item = true) : ∃ item ∈ past, p item = true ∧ change item ∈ changeFirst p change past := by
  induction past with
  | nil => simp at h
  | cons item older ih =>
    unfold changeFirst
    split
    · rename_i hp
      exact ⟨item, List.mem_cons_self, hp, List.mem_cons_self⟩
    · rename_i hp
      obtain ⟨x, hx, hpx⟩ := h
      rcases List.mem_cons.1 hx with rfl | hx
      · exact absurd hpx hp
      · obtain ⟨y, hy, hpy, hc⟩ := ih ⟨x, hx, hpx⟩
        exact ⟨y, List.mem_cons_of_mem item hy, hpy, List.mem_cons_of_mem item hc⟩

theorem mem_changeFirst {p : Statement → Bool} {change : Statement → Statement} {past : List Statement} {item : Statement}
    (h : item ∈ past) : item ∈ changeFirst p change past ∨ change item ∈ changeFirst p change past := by
  induction past with
  | nil => cases h
  | cons x older ih =>
    unfold changeFirst
    rcases List.mem_cons.1 h with rfl | h
    · split
      · exact .inr List.mem_cons_self
      · exact .inl List.mem_cons_self
    · split
      · exact .inl (List.mem_cons_of_mem _ h)
      · exact (ih h).imp (List.mem_cons_of_mem x) (List.mem_cons_of_mem x)

/-- A timeline has an item that carries a text, on a line that shows its label or not. -/
def Carries (past : List Statement) (text : String) (shown : Bool) : Prop :=
  ∃ item ∈ past, item.Carries text ∧ item.showsLabel = shown

/-- What a timeline carries it goes on to carry. -/
theorem Turn.carries {past past' : List Statement} (h : Turn past past') {text : String} {shown : Bool}
    (hc : Carries past text shown) : Carries past' text shown := by
  obtain ⟨item, hi, ht, hs⟩ := hc
  cases h with
  | same => exact ⟨item, hi, ht, hs⟩
  | push new => exact ⟨item, List.mem_cons_of_mem new hi, ht, hs⟩
  | fold =>
    rcases List.mem_cons.1 hi with rfl | hi
    · obtain ⟨l, hl, -⟩ := ht
      cases hl
    · exact ⟨item, List.mem_cons_of_mem _ hi, ht, hs⟩
  | extend more =>
    rcases mem_changeFirst hi with hm | hm
    · exact ⟨item, hm, ht, hs⟩
    · exact ⟨_, hm, carries_growItem ht more, (Statement.showsLabel_growItem more item).trans hs⟩

theorem Steps.carries {d d' : Draft} {es : List Event} (h : Steps d es d') (ha : d.Aligned) {text : String} {shown : Bool}
    (hc : Carries d.past text shown) : Carries d'.past text shown := by
  have hkeep : d'.Aligned ∧ Carries d'.past text shown :=
    h.keep (I := fun x => x.Aligned ∧ Carries x.past text shown) (P := fun _ => True)
      (fun _ hstep hx => ⟨hstep.aligned hx.1, (hstep.turn hx.1).carries hx.2⟩) (fun _ _ => trivial) ⟨ha, hc⟩
  exact hkeep.2

end Draft

/-- What opened the current branch of an open block stands in the timeline. -/
theorem History.exists_opening {past : List Statement} (h : History past) {start : Int}
    (hs : start ∈ (openAfter past).map OpenBlock.start) : ∃ item ∈ past, Draft.opensBranchOf start item = true := by
  induction past with
  | nil => cases hs
  | cons item older ih =>
    by_cases hi : Draft.opensBranchOf start item = true
    · exact ⟨item, List.mem_cons_self, hi⟩
    · obtain ⟨x, hx, hp⟩ := ih h.2 (open_before h hs hi)
      exact ⟨x, List.mem_cons_of_mem item hx, hp⟩

namespace Draft

variable {d d' : Draft}

/-- A text that a label is extended by is carried. Only in a rectangle it is not shown. -/
theorem Step.carries {text : String} (h : Step d (.extend text) d') (ha : d.Aligned) : ∃ kind shown,
    d.blockKind? = some kind ∧ Carries d'.past text shown ∧ (kind ≠ .rect → shown = true) := by
  obtain ⟨o, ho, hkind, statements, rfl⟩ := h.extends_label ha
  obtain ⟨item, hi, hp, hmem⟩ :=
    exists_changeFirst (growItem text) (exists_opening ha.history (List.mem_map_of_mem ho))
  obtain ⟨l, hl, hsuffix⟩ := suffix_growLabel text item.branchLabel?
  refine ⟨o.kind, item.showsLabel, hkind, ⟨_, hmem, ⟨l, ?_, hsuffix.isInfix⟩, ?_⟩, fun hne => ?_⟩
  · exact Statement.branchLabel?_growItem hp text ▸ hl
  · exact Statement.showsLabel_growItem text item
  · cases item with
    | blockStart s =>
      have hsame := kind_of_start ha.history hi ho (beq_iff_eq.1 hp)
      simpa [Statement.showsLabel, hsame] using hne
    | blockBranch b => rfl
    | _ => cases hp

end Draft

/-- The line that is kept is carried to the end. -/
theorem Kept.carries {source : String} {m : Diagram} {x : Diagnostic} (k : Kept source m x) : ∃ kind,
    k.early.draft.blockKind? = some kind ∧
      ∃ item ∈ m.timeline, item.Carries x.source ∧ (kind ≠ .rect → item.showsLabel = true) := by
  obtain ⟨kind, shown, hkind, hcarries, hshown⟩ := k.grows.carries k.aligned_early
  obtain ⟨es, hsteps⟩ := k.steps_after
  obtain ⟨item, hi, hin, hshows⟩ := hsteps.carries k.aligned_grown hcarries
  have htimeline := Draft.build_timeline_of_eq k.aligned_last k.diagram
  obtain ⟨item, hm, rfl⟩ := List.mem_map.1 (htimeline ▸ List.mem_reverse.2 hi)
  rw [Statement.Carries, Statement.branchLabel?_bare, ← k.text] at hin
  rw [Statement.showsLabel_bare] at hshows
  exact ⟨kind, hkind, item, hm, hin, fun hne => hshows.trans (hshown hne)⟩

/-! ## Labels in a text -/

namespace Diagram

variable {source : String} {m : Diagram}

/-- The lines of an item stand in the script of a timeline. -/
theorem exists_itemScript {past : List Statement} (h : History past) {item : Statement} (hi : item ∈ past) :
    ∃ older, item.Follows older ∧ ∀ e ∈ m.itemScript (openAfter older) item, e ∈ m.pastScript past := by
  induction past with
  | nil => cases hi
  | cons x older ih =>
    rcases List.mem_cons.1 hi with rfl | hi
    · exact ⟨older, h.1, fun e he => List.mem_append_right _ he⟩
    · obtain ⟨older', hf, hs⟩ := ih h.2 hi
      exact ⟨older', hf, fun e he => List.mem_append_left _ (hs e he)⟩

end Diagram

/-- A line that opens a block or a further branch of one. -/
def OpensBranch (line : String) : Prop := LineKind.ofLine line = .ok .blockStart ∨ LineKind.ofLine line = .ok .branch

instance (line : String) : Decidable (OpensBranch line) := inferInstanceAs (Decidable (_ ∨ _))

/-- Some line of a text that opens a block or a branch holds the given one. -/
def ShowsBranch (text kept : String) : Prop :=
  ∃ line ∈ significantLines text, OpensBranch line.text ∧ kept.toList <:+: line.text.toList

instance (text kept : String) : Decidable (ShowsBranch text kept) := inferInstanceAs (Decidable (∃ _ ∈ _, _))

/-- An item with a label that its line shows has a line with the label. -/
theorem Statement.Fits.branchLine {item : Statement} (h : item.Fits) {label : String} (hl : label ∈ item.branchLabel?)
    (hs : item.showsLabel = true) {older : List Statement} (hf : item.Follows older) (m : Diagram) :
    ∃ e ∈ m.itemScript (openAfter older) item, Plain e.1.text.toList ∧ OpensBranch e.1.text ∧
      label.toList <:+: e.1.text.toList := by
  cases item with
  | blockStart s =>
    have hshown : s.block.shown = some label := by
      simp only [showsLabel, bne_iff_ne, ne_eq] at hs
      rw [Block.shown, if_neg (by simpa using hs)]
      exact hl
    have hlabel : ∀ l ∈ s.block.shown, IsLabel l.toList := by
      rw [hshown]
      rintro _ ⟨⟩
      exact h.1 label hl
    refine ⟨_, List.mem_singleton_self _, (reads_opening hlabel).plain, .inl (kind_openingLine hlabel), ?_⟩
    rw [toList_openingLine hlabel, hshown]
    exact ⟨s.block.kind.keyword.toList ++ [' '], [], by simp [wordTail]⟩
  | blockBranch b =>
    obtain ⟨-, o, outer, -, hk, -⟩ := hf
    have hlabel : ∀ l ∈ b.label, IsLabel l.toList := h
    refine ⟨_, List.mem_singleton_self _, (reads_branch hk hlabel).plain, .inr (kind_branchLine hk hlabel), ?_⟩
    rw [joinParts_pair (BlockKind.branchKeyword_plain hk).2.1 (IsLabel.trimmed_all hlabel), show b.label = some label from hl]
    exact ⟨b.keyword.toList ++ [' '], [], by simp [wordTail]⟩
  | _ => cases hl

namespace Diagram

/-- The text of a diagram that is read from a source is written with the labels that it shows. -/
theorem label_is_written (h : Diagram.read source false = .ok m) {item : Statement} (hi : item ∈ m.timeline)
    {label : String} (hl : label ∈ item.branchLabel?) (hs : item.showsLabel = true) (layout : Layout) :
    ∃ text, m.write layout = .ok text ∧ ShowsBranch text label := by
  -- The text is that of a draft in which the blocks are closed.
  obtain ⟨d, d', ends, hd, hd', hc, -, hm⟩ := read_completes h
  have hpast : item.bare ∈ d'.past := by
    have hmem := List.mem_map_of_mem (f := Statement.bare) hi
    rw [Draft.build_timeline_of_eq hd.aligned hm] at hmem
    rw [hc.past]
    exact List.mem_append_right _ (List.mem_reverse.1 hmem)
  have hnotes : ∀ n, .note n ∈ d'.past → ∃ text, n.line = .ok text := fun n hn => by
    obtain ⟨text, ht, -⟩ := (hd'.items _ hn : n.Legible).reads
    exact ⟨text, ht⟩
  have hlines := lines_eq (Draft.build_wellBoxed hd'.wellFormed) layout hd'.aligned.history
    (Draft.build_timeline hd'.aligned) hnotes
  rw [(hc.alike hd.aligned hd'.aligned hm).lines] at hlines
  obtain ⟨older, hf, hscript⟩ := exists_itemScript (m := d'.build) hd'.aligned.history hpast
  obtain ⟨e, he, hplain, hopens, hin⟩ := (hd'.items _ hpast).branchLine (item.branchLabel?_bare ▸ hl)
    (item.showsLabel_bare ▸ hs) hf d'.build
  have hline : e.1 ∈ ⟨0, headerWord⟩ :: (d'.build.script layout d'.past).map Prod.fst := by
    have : e ∈ d'.build.script layout d'.past := by simp [script, hscript e he]
    exact List.mem_cons_of_mem _ (List.mem_map_of_mem this)
  obtain ⟨n, hn⟩ := mem_significantLines_textOf layout hline hplain
  exact ⟨_, by rw [write, hlines]; rfl, _, hn, hopens, hin⟩

end Diagram

/-! ## Main theorem -/

/-- Each line that a reading reports as kept is a line of the source, read inside a block, and a
label of the diagram holds it. If the innermost open block is not a rectangle, then so does a
line of the written text that opens a block or a branch. If it is one, then the text is the same
as for a source without the line. -/
theorem Diagram.kept_text_is_written {source : String} {m : Diagram} (h : Diagram.read source false = .ok m)
    {x : Diagnostic} (hx : x ∈ m.diagnostics) (hk : x.keeps = true) :
    (∃ line ∈ significantLines source, x.line = line.number ∧ x.source = line.text) ∧
      (∃ item ∈ m.timeline, item.Carries x.source) ∧ ∃ kind, blockBefore? source x.line = some kind ∧
        (kind ≠ .rect → ∀ layout, ∃ text, m.write layout = .ok text ∧ ShowsBranch text x.source) ∧
        (kind = .rect → ∀ source',
          significantLines source' = ((significantLines source).filter fun line => line.number != x.line) →
          ∃ m', Diagram.read source' false = .ok m' ∧ ∀ layout, m'.write layout = m.write layout) := by
  obtain ⟨k⟩ := kept_of_report h hx hk
  obtain ⟨kind, hkind, item, hi, hcarries, hshows⟩ := k.carries
  refine ⟨⟨k.line, by simp [k.lines], k.number, k.text⟩, ⟨item, hi, hcarries⟩, kind, k.blockBefore?_eq.trans hkind, ?_, ?_⟩
  · intro hne layout
    obtain ⟨label, hl, hin⟩ := hcarries
    obtain ⟨text, hw, line, hm, hopens, hlabel⟩ := label_is_written h hi hl (hshows hne) layout
    exact ⟨text, hw, line, hm, hopens, hin.trans hlabel⟩
  · rintro rfl source' hs
    exact k.lost hkind hs

/-- A branch of another kind, in a box inside the second branch of a block. -/
def boxedMisfit : String := "sequenceDiagram\nalt a\nelse b\nbox Team\nand more\nend\nend\n"

/-- The line is kept in the label of the block's second branch, and written there. -/
theorem boxed_misfit_is_written : ∃ m x, Diagram.read boxedMisfit false = .ok m ∧ x ∈ m.diagnostics ∧ x.keeps = true ∧
    blockBefore? boxedMisfit x.line = some .alt ∧
    ∀ layout, ∃ text, m.write layout = .ok text ∧ ShowsBranch text "and more" := by
  let x : Diagnostic :=
    ⟨.invalidBranchContext, 5, "'and' is only valid inside 'par', not 'box'; kept as label text", "and more"⟩
  have htold : (Diagram.read boxedMisfit false).toOption.map Diagram.diagnostics = some [x] := by decide +kernel
  have hblock : blockBefore? boxedMisfit 5 = some .alt := by decide +kernel
  have hk : x.keeps = true := by decide
  cases hm : Diagram.read boxedMisfit false with
  | error e =>
    rw [hm] at htold
    cases htold
  | ok m =>
    rw [hm] at htold
    have hx : x ∈ m.diagnostics := Option.some.inj htold ▸ List.mem_singleton_self x
    obtain ⟨-, -, kind, hkind, hwritten, -⟩ := Diagram.kept_text_is_written hm hx hk
    obtain rfl : .alt = kind := Option.some.inj (hblock.symm.trans hkind)
    exact ⟨m, x, rfl, hx, hk, hblock, hwritten nofun⟩

/-- A branch of another kind in a rectangle. -/
def rectangleMisfit : String := "sequenceDiagram\nrect\nelse x\nend\n"

/-- In a rectangle the line is kept in a label that is not written. -/
theorem rectangle_shows_no_label : ∃ m x text, Diagram.read rectangleMisfit false = .ok m ∧ x ∈ m.diagnostics ∧
    x.keeps = true ∧ m.write {} = .ok text ∧ ¬ShowsBranch text x.source := by
  let x : Diagnostic :=
    ⟨.invalidBranchContext, 3, "'else' is only valid inside 'alt', not 'rect'; kept as label text", "else x"⟩
  let text := "sequenceDiagram\n    rect\n    end\n"
  have hread : (Diagram.read rectangleMisfit false).toOption.map (fun m => (m.diagnostics, (m.write {}).toOption)) =
      some ([x], some text) := by decide +kernel
  cases hm : Diagram.read rectangleMisfit false with
  | error e =>
    rw [hm] at hread
    cases hread
  | ok m =>
    rw [hm] at hread
    obtain ⟨htold, htext⟩ := Prod.mk.inj (Option.some.inj hread)
    refine ⟨m, x, text, rfl, htold ▸ List.mem_singleton_self x, by decide, ?_, by decide +kernel⟩
    cases hw : m.write {} with
    | error e =>
      rw [hw] at htext
      cases htext
    | ok text' =>
      rw [hw] at htext
      exact congrArg Except.ok (Option.some.inj htext)

end Lifeline
