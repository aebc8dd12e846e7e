import Lifeline.Proofs.Names
/-!
# Lines of blocks and boxes

A block, a branch and a box are read from their lines with the label or the colour that
was written. A box is headed by a colour and a label in one text, which is split anew.
-/

namespace Lifeline

open Text

/-- What a label is once the blanks around it are gone. It may run over several lines. -/
structure IsTrimmed (cs : List Char) : Prop where
  ne_nil : cs ≠ []
  tight : Tight cs

theorem IsLabel.trimmed {cs : List Char} (h : IsLabel cs) : IsTrimmed cs := ⟨h.ne_nil, h.tight⟩

theorem IsLabel.trimmed_all {label : Option String} (h : ∀ l ∈ label, IsLabel l.toList) :
    ∀ l ∈ label, IsTrimmed l.toList := fun l hl => (h l hl).trimmed

/-- What follows the first word of a line, if anything does. -/
def wordTail : Option String → List Char
  | some text => ' ' :: text.toList
  | none => []

theorem ne_empty {s : String} (h : IsTrimmed s.toList) : s ≠ "" := by
  rintro rfl
  exact h.ne_nil rfl

theorem joinParts_pair {word : String} (hw : word ≠ "") {label : Option String} (h : ∀ l ∈ label, IsTrimmed l.toList) :
    (joinParts [some word, label]).toList = word.toList ++ wordTail label := by
  cases label with
  | none => simp [joinParts, wordTail, hw]
  | some l => simp [joinParts, wordTail, hw, ne_empty (h l rfl)]

/-- A line of a word that may be followed by a label. -/
theorem plain_wordTail {w : List Char} (hw : Solid w) (h0 : w ≠ []) (hp : w.head? ≠ some '%') {label : Option String}
    (h : ∀ l ∈ label, IsLabel l.toList) : Plain (w ++ wordTail label) := by
  cases label with
  | none =>
    rw [wordTail, List.append_nil]
    exact plain_word hw h0 hp
  | some l => exact plain_words hw h0 hp (h l rfl).tight (h l rfl).ne_nil (h l rfl).oneLine

theorem splitWord_wordTail {w : List Char} (hw : Solid w) (h0 : w ≠ []) {label : Option String}
    (h : ∀ l ∈ label, IsTrimmed l.toList) : splitWord (w ++ wordTail label) = (w, (label.map String.toList).getD []) := by
  cases label with
  | none =>
    rw [wordTail, List.append_nil]
    exact splitWord_solid hw
  | some l => exact splitWord_append hw h0 (h l rfl).tight

theorem label?_getD {label : Option String} (h : ∀ l ∈ label, IsTrimmed l.toList) :
    Color.label? ((label.map String.toList).getD []) = label := by
  cases label with
  | none => rfl
  | some l => simp [Color.label?, ne_empty (h l rfl)]

/-! ## Blocks -/

/-- What the opening line of a block shows: the colour of a rectangle or the label of any
other block. -/
def Block.shown (b : Block) : Option String := if b.kind == .rect then b.color else b.label

/-- The block as its opening line shows it. -/
def Block.asShown (b : Block) : Block :=
  { kind := b.kind
    label := if b.kind == .rect then none else b.label
    color := if b.kind == .rect then b.color else none }

theorem BlockKind.keyword_solid (kind : BlockKind) : Solid kind.keyword.toList := by
  cases kind <;> decide

theorem BlockKind.keyword_ne (kind : BlockKind) : kind.keyword ≠ "" := by
  cases kind <;> decide

theorem BlockKind.ofWord_keyword (kind : BlockKind) (line rest : List Char) :
    LineKind.ofWord line kind.keyword.toList rest = .ok .blockStart := by
  cases kind <;> rfl

theorem toList_openingLine {b : Block} (h : ∀ l ∈ b.shown, IsLabel l.toList) :
    b.openingLine.toList = b.kind.keyword.toList ++ wordTail b.shown :=
  joinParts_pair b.kind.keyword_ne (IsLabel.trimmed_all h)

theorem kind_openingLine {b : Block} (h : ∀ l ∈ b.shown, IsLabel l.toList) : LineKind.ofLine b.openingLine = .ok .blockStart := by
  have h0 : b.kind.keyword.toList ≠ [] := by simpa using b.kind.keyword_ne
  simp only [LineKind.ofLine, toList_openingLine h, splitWord_wordTail b.kind.keyword_solid h0 (IsLabel.trimmed_all h),
    BlockKind.ofWord_keyword]

/-- The opening of a block is read from its line as far as it is shown there. -/
theorem reads_opening {b : Block} (h : ∀ l ∈ b.shown, IsLabel l.toList) :
    Reads b.openingLine (.blockStart { block := b.asShown }) := by
  have ht := toList_openingLine h
  have h0 : b.kind.keyword.toList ≠ [] := by simpa using b.kind.keyword_ne
  have hs := splitWord_wordTail b.kind.keyword_solid h0 (IsLabel.trimmed_all h)
  refine .of_kind .blockStart (ht ▸ plain_wordTail b.kind.keyword_solid h0 (by cases b.kind <;> decide) h) (kind_openingLine h) ?_
  simp only [Statement.ofKind, readBlockStart, ht, hs, String.ofList_toList, BlockKind.ofKeyword?_keyword,
    label?_getD (IsLabel.trimmed_all h)]
  cases hk : b.kind <;> simp [Block.asShown, Block.shown, hk]

theorem BlockKind.branchKeyword_plain {kind : BlockKind} {keyword : String} (hk : kind.branchKeyword? = some keyword) :
    Solid keyword.toList ∧ keyword ≠ "" ∧ keyword.toList.head? ≠ some '%' := by
  cases kind <;> cases hk <;> decide

theorem kind_branchLine {kind : BlockKind} {keyword : String} (hk : kind.branchKeyword? = some keyword)
    {label : Option String} (h : ∀ l ∈ label, IsLabel l.toList) :
    LineKind.ofLine (joinParts [some keyword, label]) = .ok .branch := by
  have hw := BlockKind.branchKeyword_plain hk
  have hof : ∀ line rest, LineKind.ofWord line keyword.toList rest = .ok .branch := by
    cases kind <;> cases hk <;> exact fun _ _ => rfl
  have h0 : keyword.toList ≠ [] := by simpa using hw.2.1
  simp only [LineKind.ofLine, joinParts_pair hw.2.1 (IsLabel.trimmed_all h),
    splitWord_wordTail hw.1 h0 (IsLabel.trimmed_all h), hof]

/-- A further branch is read from its line. -/
theorem reads_branch {kind : BlockKind} {keyword : String} (hk : kind.branchKeyword? = some keyword)
    {label : Option String} (h : ∀ l ∈ label, IsLabel l.toList) :
    Reads (joinParts [some keyword, label]) (.blockBranch { keyword, label }) := by
  have hw := BlockKind.branchKeyword_plain hk
  have ht := joinParts_pair hw.2.1 (IsLabel.trimmed_all h)
  have h0 : keyword.toList ≠ [] := by simpa using hw.2.1
  have hs := splitWord_wordTail hw.1 h0 (IsLabel.trimmed_all h)
  refine .of_kind .branch (ht ▸ plain_wordTail hw.1 h0 hw.2.2 h) (kind_branchLine hk h) ?_
  simp only [Statement.ofKind, readBranch, ht, hs, String.ofList_toList, label?_getD (IsLabel.trimmed_all h)]

theorem reads_end : Reads endWord (.blockEnd {}) :=
  .of_kind .close (plain_word (by decide) (by decide) (by decide)) rfl rfl

/-! ## Boxes -/

/-- The colour that is written for a box: its own, or none in front of a label that would
be read as a colour. -/
def Box.shownColor (b : Box) : Option String :=
  match b.color with
  | some color => some color
  | none => if Color.labelStartsWithColor b.label then some Color.transparent else none

/-- A colour and a label as one text. -/
def headingOf : Option String → Option String → Option String
  | some color, some label => some (color ++ " " ++ label)
  | some color, none => some color
  | none, label => label

/-- The heading of a box as it is read from its line. -/
def Box.readHeading (b : Box) : Color.Heading :=
  Color.splitHeading (((headingOf b.shownColor b.label).map String.toList).getD [])

/-- A box whose colour and label have no blanks around them. -/
structure Box.Trimmed (b : Box) : Prop where
  label : ∀ l ∈ b.label, IsTrimmed l.toList
  color : ∀ c ∈ b.color, IsTrimmed c.toList

/-- What the heading line of a box can hold. -/
structure Box.Legible (b : Box) : Prop where
  label : ∀ l ∈ b.label, IsLabel l.toList
  color : ∀ c ∈ b.color, IsLabel c.toList

theorem Box.Legible.trimmed {b : Box} (h : b.Legible) : b.Trimmed :=
  ⟨IsLabel.trimmed_all h.label, IsLabel.trimmed_all h.color⟩

theorem isTrimmed_headingOf {color label : Option String} (hc : ∀ c ∈ color, IsTrimmed c.toList)
    (hl : ∀ l ∈ label, IsTrimmed l.toList) : ∀ h ∈ headingOf color label, IsTrimmed h.toList := by
  match color, label, hc, hl with
  | none, _, _, hl => exact hl
  | some c, none, hc, _ => exact hc
  | some c, some l, hc, hl =>
    have hc := hc c rfl
    have hl := hl l rfl
    have := hc.tight.append hl.tight hc.ne_nil hl.ne_nil [' ']
    rintro _ ⟨⟩
    exact ⟨by simp [hc.ne_nil], by simpa using this⟩

theorem isLabel_headingOf {color label : Option String} (hc : ∀ c ∈ color, IsLabel c.toList)
    (hl : ∀ l ∈ label, IsLabel l.toList) : ∀ h ∈ headingOf color label, IsLabel h.toList := by
  intro h hh
  have htrimmed := isTrimmed_headingOf (IsLabel.trimmed_all hc) (IsLabel.trimmed_all hl) h hh
  refine ⟨htrimmed.ne_nil, htrimmed.tight, ?_⟩
  match color, label, hc, hl, hh with
  | none, some l, _, hl, rfl => exact (hl _ rfl).oneLine
  | some c, none, hc, _, rfl => exact (hc _ rfl).oneLine
  | some c, some l, hc, hl, rfl =>
    have hb : isLineBreak ' ' = false := rfl
    simp [(hc c rfl).oneLine, (hl l rfl).oneLine, hb]

theorem joinParts_heading {word : String} (hw : word ≠ "") {color label : Option String}
    (hc : ∀ c ∈ color, IsTrimmed c.toList) (hl : ∀ l ∈ label, IsTrimmed l.toList) :
    (joinParts [some word, color, label]).toList = word.toList ++ wordTail (headingOf color label) := by
  match color, label, hc, hl with
  | none, none, _, _ => simp [joinParts, wordTail, headingOf, hw]
  | none, some l, _, hl => simp [joinParts, wordTail, headingOf, hw, ne_empty (hl l rfl)]
  | some c, none, hc, _ => simp [joinParts, wordTail, headingOf, hw, ne_empty (hc c rfl)]
  | some c, some l, hc, hl =>
    simp [joinParts, wordTail, headingOf, hw, ne_empty (hc c rfl), ne_empty (hl l rfl)]

theorem isLabel_transparent : IsLabel Color.transparent.toList :=
  have hs : Solid Color.transparent.toList := by decide
  ⟨by decide, hs.tight, hs.oneLine⟩

/-- The colour that is written is the one of the box, or `transparent`. -/
theorem Box.shownColor_of {b : Box} {P : List Char → Prop} (hc : ∀ c ∈ b.color, P c.toList)
    (ht : P Color.transparent.toList) : ∀ c ∈ b.shownColor, P c.toList := by
  intro c h
  unfold Box.shownColor at h
  cases hcolor : b.color with
  | some color =>
    rw [hcolor] at h
    exact hc c (hcolor ▸ h)
  | none =>
    simp only [hcolor] at h
    split at h
    · cases h
      exact ht
    · cases h

namespace Box.Trimmed

variable {b : Box}

theorem shownColor (h : b.Trimmed) : ∀ c ∈ b.shownColor, IsTrimmed c.toList :=
  Box.shownColor_of h.color isLabel_transparent.trimmed

theorem heading (h : b.Trimmed) : ∀ t ∈ headingOf b.shownColor b.label, IsTrimmed t.toList :=
  isTrimmed_headingOf h.shownColor h.label

theorem headingLine_eq (h : b.Trimmed) :
    b.headingLine.toList = "box".toList ++ wordTail (headingOf b.shownColor b.label) :=
  joinParts_heading (by decide) h.shownColor h.label

theorem splitWord_headingLine (h : b.Trimmed) : splitWord b.headingLine.toList =
    ("box".toList, ((headingOf b.shownColor b.label).map String.toList).getD []) := by
  rw [h.headingLine_eq]
  exact splitWord_wordTail (by decide) (by decide) h.heading

/-- The heading line of a box is known by its first word. -/
theorem kind (h : b.Trimmed) : LineKind.ofLine b.headingLine = .ok .boxStart := by
  simp only [LineKind.ofLine, h.splitWord_headingLine]
  rfl

/-- What is read from the heading line of a box. -/
theorem statement (h : b.Trimmed) : Statement.ofKind .boxStart b.headingLine = .ok (.boxStart b.readHeading) := by
  simp only [Statement.ofKind, readBox, h.splitWord_headingLine, Box.readHeading]

end Box.Trimmed

/-- The heading of a box is read from its line. -/
theorem Box.Legible.reads {b : Box} (h : b.Legible) : Reads b.headingLine (.boxStart b.readHeading) := by
  have hlabel := isLabel_headingOf (Box.shownColor_of h.color isLabel_transparent) h.label
  refine .of_kind .boxStart ?_ h.trimmed.kind h.trimmed.statement
  rw [h.trimmed.headingLine_eq]
  exact plain_wordTail (by decide) (by decide) (by decide) hlabel

/-! ## The first lines -/

theorem reads_autonumber : Reads autonumberWord .autonumber :=
  .of_kind .autonumber (plain_word (by decide) (by decide) (by decide)) rfl rfl

theorem plain_header : Plain headerWord.toList := plain_word (by decide) (by decide) (by decide)

theorem kind_header : LineKind.ofLine headerWord = .ok .header := rfl

end Lifeline
