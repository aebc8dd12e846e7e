import Lifeline.Proofs.Built
import Lifeline.Proofs.Speakers
/-!
# Drafts that fit on lines

A draft fits on lines if each part of it fits on its line: ids, labels and colours are
trimmed and free of line breaks, and texts are in normal form. Events that bring only such
parts keep a draft so, and lines can hold its diagram as far as the parts of a line do not
run into each other (`Draft.Fits.legible`).
-/

namespace Lifeline

open History Text

/-! ## Parts -/

/-- A label that is missing or fits on a line. -/
def IsTidyLabel (label : Option String) : Prop := ∀ l ∈ label, IsLabel l.toList

/-- An item of a timeline of which each part fits on a line. -/
def Statement.Fits : Statement → Prop
  | .message m => m.Fits
  | .note n => n.Legible
  | .directive x => IsId x.id.toList
  | .blockStart s => IsTidyLabel s.block.label ∧ IsTidyLabel s.block.color
  | .blockBranch b => IsTidyLabel b.label
  | _ => True

/-- The message as a draft keeps it. -/
def Message.kept (m : Message) : Message := { m with text := m.text.map Text.normalized }

/-- The note as a draft keeps it. -/
def Note.kept (n : Note) : Note := { n with text := Text.normalized n.text }

/-- An event that brings only parts that fit on a line. -/
def Event.Fits : Event → Prop
  | .mention _ => False
  | .declare id _ label | .create id _ label => IsId id.toList ∧ IsTidyLabel label
  | .destroy id | .activation id _ | .link id _ => IsId id.toList
  | .openBox heading => IsTidyLabel heading.label ∧ IsTidyLabel heading.color
  | .message m => m.kept.Fits
  | .note n => n.kept.Legible
  | .openBlock _ label color => IsTidyLabel label ∧ IsTidyLabel color
  | .openBranch _ label => IsTidyLabel label
  | .extend text => IsLabel text.toList
  | .number _ | .close => True

/-- A draft of which each part fits on a line. -/
structure Draft.Fits (d : Draft) : Prop where
  items : ∀ item ∈ d.past, item.Fits
  ids : ∀ id ∈ d.roster.ids, IsId id.toList
  labels : ∀ id, IsTidyLabel (d.roster.card id).label
  boxes : ∀ b ∈ d.boxes, b.Legible

theorem isTidyLabel_growLabel {label : Option String} (h : IsTidyLabel label) {text : String} (ht : IsLabel text.toList) :
    IsTidyLabel (Draft.growLabel text label) := by
  rintro l hl
  unfold Draft.growLabel at hl
  cases hlabel : label with
  | none =>
    rw [hlabel] at hl
    cases hl
    exact ht
  | some s =>
    have hs := h s hlabel
    have hb : isLineBreak ' ' = false := rfl
    have := hs.tight.append ht.tight hs.ne_nil ht.ne_nil [' ']
    simp only [hlabel, String.isEmpty_iff, ne_empty hs.trimmed, if_false] at hl
    cases hl
    exact ⟨by simp [hs.ne_nil], by simpa using this, by simp [hs.oneLine, ht.oneLine, hb]⟩

/-! ## Steps that fit -/

/-- A message that takes in an activation still fits. -/
theorem Message.Fits.fold {m m' : Message} (hm : m.Fits) {id : String} {activate : Bool}
    (h : Draft.fold? m id activate = some m') : m'.Fits := by
  have hmark : ∀ e : Endpoint, e.isFree = true → (Draft.mark activate e).id = e.id ∧
      ¬((Draft.mark activate e).activates = true ∧ (Draft.mark activate e).deactivates = true) ∧
      (Draft.mark activate e).isFree = false := by
    intro e he
    simp only [Endpoint.isFree, Bool.and_eq_true, Bool.not_eq_true'] at he
    unfold Draft.mark
    split <;> simp [he, Endpoint.isFree]
  unfold Draft.fold? at h
  split at h
  · rename_i hc
    obtain ⟨hid, hone, hfree⟩ := hmark m.target (Bool.and_eq_true _ _ ▸ hc).2
    cases h
    exact { hm with target := ⟨hid ▸ hm.target.id, hone, by simp [hfree], by simp [hfree]⟩ }
  · split at h
    · rename_i hc
      obtain ⟨hid, hone, hfree⟩ := hmark m.source (Bool.and_eq_true _ _ ▸ hc).2
      cases h
      exact
        { source := ⟨hid ▸ hm.source.id, hone, by simp [hfree], by simp [hfree]⟩
          target := hm.target
          text := hm.text
          notComment := by simp [hfree]
          leads := by simp [hfree] }
    · cases h

theorem Statement.Fits.growItem {item : Statement} (h : item.Fits) {text : String} (ht : IsLabel text.toList) :
    (Draft.growItem text item).Fits := by
  cases item with
  | blockStart s => exact ⟨isTidyLabel_growLabel h.1 ht, h.2⟩
  | blockBranch b => exact isTidyLabel_growLabel h ht
  | _ => exact h

namespace Event

variable {e : Event}

theorem Fits.names (h : e.Fits) : ∀ id ∈ e.names, IsId id.toList := by
  intro id hid
  cases e with
  | mention => exact h.elim
  | openBox | openBlock | openBranch | number | close | extend => cases hid
  | declare | create =>
    obtain rfl := List.mem_singleton.1 hid
    exact h.1
  | destroy | activation | link =>
    obtain rfl := List.mem_singleton.1 hid
    exact h
  | message m =>
    rcases List.mem_cons.1 hid with rfl | hid
    · exact h.source.id
    · obtain rfl := List.mem_singleton.1 hid
      exact h.target.id
  | note n => exact h.targets id hid

theorem Fits.isReal (h : e.Fits) : Draft.IsReal e := by
  rintro id rfl
  exact h

theorem Fits.declared (h : e.Fits) {id : String} {kind : ParticipantKind} {label : Option String}
    (hd : e.declaration? id = some (kind, label)) : IsTidyLabel label := by
  cases e with
  | declare | create =>
    simp only [declaration?, Option.ite_none_right_eq_some, Option.some.injEq, Prod.mk.injEq] at hd
    obtain ⟨-, -, rfl⟩ := hd
    exact h.2
  | _ => cases hd

end Event

namespace Draft

theorem fits_empty : Fits {} where
  items := by simp
  ids := by simp [Roster.ids]
  labels := fun _ _ hl => by cases hl
  boxes := by simp

/-- What holds of every heading that is opened holds of every box. -/
theorem Step.keep_boxes {P : Box → Prop} (hP : ∀ {b c : Box}, b.label = c.label → b.color = c.color → P b → P c)
    {d d' : Draft} {e : Event} (h : Step d e d')
    (he : ∀ heading, e = .openBox heading → P { label := heading.label, color := heading.color })
    (hd : ∀ b ∈ d.boxes, P b) : ∀ b ∈ d'.boxes, P b := by
  rcases h.boxes with hb | ⟨heading, rfl, hb⟩ | ⟨id, kind, label, place, -, -, hb⟩
  · rw [hb]
    exact hd
  · rw [hb]
    intro b hm
    rcases List.mem_append.1 hm with hm | hm
    · exact hd b hm
    · exact List.mem_singleton.1 hm ▸ he heading rfl
  · rw [hb]
    intro b hm
    obtain ⟨b0, hm0, rfl | rfl⟩ := Box.of_mem_modify hm
    · exact hP (b := b0) rfl rfl (hd b0 hm0)
    · exact hd b hm0

/-- A step that adds an item that fits, or none, keeps the timeline so. -/
theorem Step.fits_items {d d' : Draft} {e : Event} (h : Step d e d') (ha : d.Aligned) (he : e.Fits)
    (hd : ∀ item ∈ d.past, item.Fits) : ∀ item ∈ d'.past, item.Fits := by
  have push : ∀ {item : Statement}, item.Fits → ∀ x ∈ item :: d.past, x.Fits := fun hi x hx => by
    rcases List.mem_cons.1 hx with rfl | hx
    · exact hi
    · exact hd x hx
  -- One case per event: most add an item that fits by assumption, a fold or a text changes one.
  cases h with
  | mention => exact he.elim
  | declare => simpa using hd
  | link | number | openBox | closeBox => exact hd
  | create => exact push he.1
  | destroyAtLast | destroyLater | activation => exact push he
  | message hv =>
    rw [past_settle]
    exact push { he with }
  | note hv => exact push { he with }
  | fold _ hp hm =>
    rw [hp] at hd
    intro x hx
    rcases List.mem_cons.1 hx with rfl | hx
    · exact (hd _ List.mem_cons_self : Message.Fits _).fold hm
    · exact hd x (List.mem_cons_of_mem _ hx)
  | openBlock | openBranch => exact push he
  | closeBlock => exact push trivial
  | extend hf =>
    rw [(ha.grows hf _).1]
    exact forall_changeFirst hd fun item hi _ => (hd item hi).growItem he

theorem Step.fits {d d' : Draft} {e : Event} (h : Step d e d') (ha : d.Aligned) (he : e.Fits) (hd : d.Fits) : d'.Fits where
  items := h.fits_items ha he hd.items
  ids := fun id hid => by
    rw [h.ids, Roster.mem_foldl_addName] at hid
    rcases hid with hid | hid
    · exact hd.ids id hid
    · exact he.names id hid
  labels := fun id => by
    rw [h.card]
    unfold Card.after
    split
    · rename_i kind label hx
      intro l hl
      rcases Option.or_eq_some_iff.1 hl with hl | ⟨-, hl⟩
      · exact he.declared hx l hl
      · exact hd.labels id l hl
    · exact hd.labels id
  boxes := h.keep_boxes (fun hl hc hb => ⟨hl ▸ hb.label, hc ▸ hb.color⟩) (fun heading hh => by
    subst hh
    exact ⟨he.1, he.2⟩) hd.boxes

end Draft

/-! ## The diagram of a draft that fits -/

/-- The parts of the lines of a diagram with certain items do not run into each other. -/
structure Diagram.Separate (m : Diagram) (items : List Statement) : Prop where
  noTip : ∀ x, .message x ∈ items → x.source.deactivates = true → ∀ c ∈ x.source.id.toList.head?, Arrow.isTip c = false
  noDash : ∀ x, .message x ∈ items → x.source.id.toList.getLast? = some '-' → x.arrow.isThin = false
  unaliased : ∀ p ∈ m.participants, Unaliased p.id.toList (aliasTail p.label)
  links : ∀ p ∈ m.participants, ∀ l ∈ p.links, l.Legible

theorem Draft.Fits.legible {d : Draft} (h : d.Fits) (hs : d.build.Separate d.past) (hd : d.WellFormed) (ha : d.Aligned)
    (hm : d.Marked) : d.build.Legible d.past where
  boxed := build_wellBoxed hd
  history := ha.history
  timeline := build_timeline ha
  known := fun x hx _ => by
    rw [build_ids]
    exact hd.named _ (List.mem_flatMap.2 ⟨_, hx, List.mem_singleton_self _⟩)
  items := fun item hi => by
    have hf := h.items item hi
    cases item with
    | message m => exact Message.Fits.legible hf (hs.noTip m hi) (hs.noDash m hi)
    | note n => exact hf
    | directive x => exact hf
    | blockStart s =>
      intro l hl
      unfold Block.shown at hl
      split at hl
      · exact hf.2 l hl
      · exact hf.1 l hl
    | blockBranch b => exact hf
    | _ => trivial
  participants := fun p hp => by
    obtain ⟨hid, he⟩ := participant_build hd hm hp
    have hlabel : IsTidyLabel p.label := by
      rw [he]
      exact h.labels p.id
    exact { id := h.ids p.id hid, label := hlabel, unaliased := hs.unaliased p hp, links := hs.links p hp }
  boxes := h.boxes

end Lifeline
