import Lifeline.Proofs.Fitting
import Lifeline.Proofs.Sightings
/-!
# Tidy drafts

A draft is tidy if it fits on lines and its parts cannot be confused: its ids are safe, its
links are clear, and only rectangles have a colour instead of a label. Tidy events keep a
draft tidy, and lines can hold the diagram of a tidy draft.
-/

namespace Lifeline

open History Text

/-! ## Safe ids -/

/-- An id that no line confuses with anything else: no blank, none of the characters
that end an id, no arrow, and no mark, tip or comment where one could stand. -/
structure IsSafe (id : String) : Prop where
  ne : id ≠ ""
  noBlank : Solid id.toList
  noReserved : ∀ c ∈ [',', ':', '<', '>'], c ∉ id.toList
  noArrow : ∀ a : Arrow, ¬a.literal <:+: id.toList
  start : ∀ s ∈ ["+", "-", "x", ")", "%%"], ¬s.toList <+: id.toList
  stop : ∀ s ∈ ["+", "-"], ¬s.toList <:+ id.toList

namespace IsSafe

variable {id : String}

theorem isId (h : IsSafe id) : IsId id.toList where
  ne_nil := by simpa using h.ne
  tight := Solid.tight h.noBlank
  oneLine := Solid.oneLine h.noBlank
  free := by
    rw [List.any_eq_false]
    intro c hc hr
    refine h.noReserved c ?_ hc
    simpa [isReserved, or_assoc] using hr
  noArrow := Arrow.find?_eq_none_iff.2 h.noArrow

theorem head?_ne (h : IsSafe id) {c : Char} (hc : [c] ∈ [['+'], ['-'], ['x'], [')']]) : id.toList.head? ≠ some c := by
  intro hh
  obtain ⟨rest, hid⟩ := List.head?_eq_some_iff.1 hh
  have := h.start (String.ofList [c]) (by simpa [← String.toList_inj] using hc)
  rw [String.toList_ofList, hid] at this
  exact this (by simp)

theorem getLast?_ne (h : IsSafe id) {c : Char} (hc : [c] ∈ [['+'], ['-']]) : id.toList.getLast? ≠ some c := by
  intro hl
  obtain ⟨rest, hid⟩ := List.getLast?_eq_some_iff.1 hl
  have := h.stop (String.ofList [c]) (by simpa [← String.toList_inj] using hc)
  rw [String.toList_ofList, hid] at this
  exact this (by simp)

theorem isMark_head (h : IsSafe id) : ∀ c ∈ id.toList.head?, isMark c = false := by
  intro c hc
  cases hm : isMark c with
  | false => rfl
  | true =>
    have hm : c = '+' ∨ c = '-' := by simpa [isMark] using hm
    rcases hm with rfl | rfl
    · exact absurd hc (h.head?_ne (by simp))
    · exact absurd hc (h.head?_ne (by simp))

theorem isMark_last (h : IsSafe id) : ∀ c ∈ id.toList.getLast?, isMark c = false := by
  intro c hc
  cases hm : isMark c with
  | false => rfl
  | true =>
    have hm : c = '+' ∨ c = '-' := by simpa [isMark] using hm
    rcases hm with rfl | rfl
    · exact absurd hc (h.getLast?_ne (by simp))
    · exact absurd hc (h.getLast?_ne (by simp))

theorem isTip_head (h : IsSafe id) : ∀ c ∈ id.toList.head?, Arrow.isTip c = false := by
  intro c hc
  cases ht : Arrow.isTip c with
  | false => rfl
  | true =>
    have ht : (c = '>' ∨ c = 'x') ∨ c = ')' := by simpa [Arrow.isTip] using ht
    rcases ht with (rfl | rfl) | rfl
    · exact absurd (List.mem_of_mem_head? hc) (h.noReserved '>' (by simp))
    · exact absurd hc (h.head?_ne (by simp))
    · exact absurd hc (h.head?_ne (by simp))

end IsSafe

/-- A message between safe ids fits on a line. -/
theorem Message.fits_of_safe {m : Message} (hs : IsSafe m.source.id) (ht : IsSafe m.target.id)
    (hv : m.fault? = none) (htext : ∀ t ∈ m.text, IsSaid t.toList) : m.Fits where
  source := ⟨hs.isId, ((Message.fault?_eq_none_iff m).1 hv).1, fun _ => hs.isMark_head, fun _ => hs.getLast?_ne (by simp)⟩
  target := ⟨ht.isId, ((Message.fault?_eq_none_iff m).1 hv).2, fun _ => ht.isMark_head, fun _ => ht.isMark_last⟩
  text := htext
  notComment := fun _ => by
    have := hs.start "%%" (by simp)
    rw [← Bool.not_eq_true]
    exact fun h => this (List.isPrefixOf_iff_prefix.1 h)
  leads := fun _ => misleads_of_solid hs.noBlank _

/-! ## Tidy parts -/

/-- A link whose label and address fit on a line together. -/
structure Link.IsTidy (l : Link) : Prop where
  label : IsLabel l.label.text.toList
  url : IsLabel l.url.text.toList
  noAt : '@' ∉ l.label.text.toList

/-- A block shows all it has: a rectangle has no label, and any other block no colour. -/
def Statement.IsShown : Statement → Prop
  | .blockStart s => if s.block.kind = .rect then s.block.label = none else s.block.color = none
  | _ => True

/-- An event that brings only what fits on a line, into a draft where it does not label a
rectangle. -/
def Event.IsTidy (d : Draft) : Event → Prop
  | .mention _ => False
  | .declare id _ label | .create id _ label => IsSafe id ∧ IsTidyLabel label
  | .destroy id | .activation id _ => IsSafe id
  | .link id l => IsSafe id ∧ l.IsTidy
  | .openBox heading => IsTidyLabel heading.label ∧ IsTidyLabel heading.color
  | .message m => IsSafe m.source.id ∧ IsSafe m.target.id ∧ ∀ t ∈ m.text, OneLine (Text.normalized t).toList
  | .note n => (∀ id ∈ n.targets, IsSafe id) ∧ OneLine (Text.normalized n.text).toList
  | .openBlock kind label color =>
    IsTidyLabel label ∧ IsTidyLabel color ∧ if kind = .rect then label = none else color = none
  | .openBranch _ label => IsTidyLabel label
  | .extend text => IsLabel text.toList ∧ ∀ f ∈ d.frames.block?, f.region ≠ .block .rect
  | .number _ | .close => True

/-- A draft of which each part fits on its line and can be told apart there. -/
structure Draft.IsTidy (d : Draft) : Prop extends d.Fits where
  safe : ∀ id ∈ d.roster.ids, IsSafe id
  links : ∀ id, ∀ l ∈ (d.roster.card id).links, l.Clear
  shown : ∀ item ∈ d.past, item.IsShown

/-! ## What is kept tidy -/

/-- Code points are blank where their text is. -/
theorem Points.trimmed_of_tight {ps : Points} (h : Tight ps.text.toList) : ps.trimmed = ps := by
  have hb : ∀ p : CodePoint, isBlank (p.written Half.replaced) = p.isBlank := fun p => by cases p <;> rfl
  have ht : ps.text.toList = ps.map (CodePoint.written Half.replaced) := by simp [Points.text, Points.textWith]
  have hdrop : ∀ qs : Points, (∀ c ∈ (qs.map (CodePoint.written Half.replaced)).head?, isBlank c = false) →
      qs.dropWhile CodePoint.isBlank = qs := by
    intro qs hq
    cases qs with
    | nil => rfl
    | cons q qs => simp [← hb, hq (q.written Half.replaced) rfl]
  rw [ht] at h
  have hrev := h.2
  rw [← List.head?_reverse, ← List.map_reverse] at hrev
  unfold Points.trimmed
  rw [hdrop ps h.1, hdrop ps.reverse hrev, List.reverse_reverse]

theorem Link.IsTidy.trimmed {l : Link} (h : l.IsTidy) : l.trimmed = l ∧ l.Clear := by
  refine ⟨?_, ?_⟩
  · simp only [Link.trimmed, Points.trimmed_of_tight h.label.tight, Points.trimmed_of_tight h.url.tight]
  · exact
      { label_tight := h.label.tight
        label_oneLine := h.label.oneLine
        url := h.url
        labelled := fun _ hm => h.noAt (List.mem_of_mem_tail hm)
        unlabelled := fun h0 => absurd h0 h.label.ne_nil }

namespace Event

variable {d : Draft} {e : Event}

theorem IsTidy.safe (h : e.IsTidy d) : ∀ id ∈ e.names, IsSafe id := by
  intro id hid
  cases e with
  | mention => exact h.elim
  | openBox | openBlock | openBranch | number | close | extend => cases hid
  | declare | create | link =>
    obtain rfl := List.mem_singleton.1 hid
    exact h.1
  | destroy | activation =>
    obtain rfl := List.mem_singleton.1 hid
    exact h
  | message m =>
    rcases List.mem_cons.1 hid with rfl | hid
    · exact h.1
    · obtain rfl := List.mem_singleton.1 hid
      exact h.2.1
  | note n => exact h.1 id hid

theorem IsTidy.linked (h : e.IsTidy d) {id : String} {l : Link} (hl : e.link? id = some l) : l.Clear := by
  cases e with
  | link =>
    simp only [link?, Option.ite_none_right_eq_some, Option.some.injEq] at hl
    obtain ⟨-, rfl⟩ := hl
    exact h.2.trimmed.1.symm ▸ h.2.trimmed.2
  | _ => cases hl

end Event

namespace Draft

theorem tidy_empty : IsTidy {} :=
  { fits_empty with
    safe := by simp [Roster.ids]
    links := fun _ _ hl => by cases hl
    shown := by simp }

/-- A tidy event that can happen fits on lines. -/
theorem Step.fits_of_tidy {d d' : Draft} {e : Event} (h : Step d e d') (he : e.IsTidy d) : e.Fits := by
  cases h with
  | mention => exact he.elim
  | declare | create => exact ⟨he.1.isId, he.2⟩
  | destroyAtLast | destroyLater | fold | activation => exact IsSafe.isId he
  | link => exact he.1.isId
  | openBox => exact he
  | openBlock => exact ⟨he.1, he.2.1⟩
  | openBranch => exact he
  | extend => exact he.1
  | message hv =>
    refine Message.fits_of_safe (m := Message.kept _) he.1 he.2.1 hv fun t ht => ?_
    obtain ⟨u, hu, rfl⟩ := Option.map_eq_some_iff.1 ht
    exact ⟨tight_normalized u, he.2.2 u hu⟩
  | note hv => exact ⟨fun id hid => (he.1 id hid).isId, hv, tight_normalized _, he.2⟩
  | number | closeBox | closeBlock => trivial

/-- No rectangle gets a label. -/
theorem Step.shown {d d' : Draft} {e : Event} (h : Step d e d') (he : e.IsTidy d) (ha : d.Aligned)
    (hd : ∀ item ∈ d.past, item.IsShown) : ∀ item ∈ d'.past, item.IsShown := by
  have push : ∀ {item : Statement}, item.IsShown → ∀ x ∈ item :: d.past, x.IsShown := fun hi x hx => by
    rcases List.mem_cons.1 hx with rfl | hx
    · exact hi
    · exact hd x hx
  -- Only the opening of a block can show more than it has, and only a text can label it later.
  cases h with
  | mention => exact he.elim
  | declare => simpa using hd
  | link | number | openBox | closeBox => exact hd
  | message =>
    rw [past_settle]
    refine push ?_
    trivial
  | create | destroyAtLast | destroyLater | activation | note | openBranch | closeBlock =>
    refine push ?_
    trivial
  | fold _ hp =>
    rw [hp] at hd
    intro x hx
    rcases List.mem_cons.1 hx with rfl | hx
    · trivial
    · exact hd x (List.mem_cons_of_mem _ hx)
  | openBlock => exact push he.2.2
  | @extend text frame hf =>
    rw [(ha.grows hf text).1]
    refine forall_changeFirst hd fun item hi ho => ?_
    cases item with
    | blockStart s =>
      have hitem := hd _ hi
      by_cases hk : s.block.kind = .rect
      · obtain ⟨o, os, hopen, hstart, hr⟩ := ha.open_of_frame hf
        have horder : s.order = o.start := by
          rw [hstart]
          simpa [opensBranchOf] using ho
        have hkind := ha.history.kind_of_start hi (by rw [hopen]; simp) horder
        rw [hk] at hkind
        exact absurd (hkind ▸ hr) (he.2 frame hf)
      · simpa [Statement.IsShown, growItem, hk] using hitem
    | _ => trivial

theorem Step.tidy {d d' : Draft} {e : Event} (h : Step d e d') (he : e.IsTidy d) (ha : d.Aligned) (hd : d.IsTidy) :
    d'.IsTidy :=
  { h.fits ha (h.fits_of_tidy he) hd.toFits with
    safe := fun id hid => by
      rw [h.ids, Roster.mem_foldl_addName] at hid
      rcases hid with hid | hid
      · exact hd.safe id hid
      · exact he.safe id hid
    links := fun id => by
      rw [h.card]
      unfold Card.after
      split
      · exact hd.links id
      · intro l hl
        rcases List.mem_append.1 hl with hl | hl
        · exact hd.links id l hl
        · exact he.linked (by simpa using hl)
    shown := h.shown he ha hd.shown }

end Draft

/-! ## The diagram of a tidy draft -/

/-- An item that shows all it has is read as it is. -/
theorem Statement.IsShown.reread {item : Statement} {older : List Statement} (h : item.IsShown)
    (hf : item.Follows older) : Diagram.reread item = item := by
  cases item with
  | blockStart s =>
    obtain ⟨block, order⟩ := s
    obtain ⟨-, hb, hs, he⟩ := hf
    obtain ⟨kind, label, color, branches, start, stop⟩ := block
    simp only [Statement.IsShown] at hb hs he h
    subst hb hs he
    by_cases hk : kind = .rect
    · simp only [hk, if_true] at h
      simp [Diagram.reread, Block.asShown, hk, h]
    · simp only [hk, if_false] at h
      simp [Diagram.reread, Block.asShown, hk, h]
  | _ => rfl

theorem shown_reread {past : List Statement} (h : ∀ item ∈ past, item.IsShown) (hh : History past) :
    past.map Diagram.reread = past := by
  induction past with
  | nil => rfl
  | cons item older ih =>
    rw [List.map_cons, (h item (by simp)).reread hh.1, ih (fun x hx => h x (List.mem_cons_of_mem item hx)) hh.2]

/-- Safe ids and clear links keep the parts of lines apart. -/
theorem Draft.IsTidy.separate {d : Draft} (h : d.IsTidy) (hd : d.WellFormed) (hm : d.Marked) :
    d.build.Separate d.past := by
  have hsafe : ∀ m, .message m ∈ d.past → IsSafe m.source.id := fun m hi =>
    h.safe _ (hd.named _ (List.mem_flatMap.2 ⟨_, hi, List.mem_cons_self⟩))
  refine ⟨fun m hi _ => (hsafe m hi).isTip_head, fun m hi hl => absurd hl ((hsafe m hi).getLast?_ne (by simp)),
    fun p hp => ?_, fun p hp l hl => ?_⟩
  · obtain ⟨hid, he⟩ := participant_build hd hm hp
    have htail : OneLine (aliasTail p.label) := by
      cases hl : p.label with
      | none => exact oneLine_nil
      | some l =>
        have hlabel := h.labels p.id l (by rw [he] at hl; exact hl)
        have ha : OneLine (' ' :: ("as".toList ++ [' '])) := by decide
        have := oneLine_append.2 ⟨ha, hlabel.oneLine⟩
        simpa [aliasTail] using this
    exact Solid.unaliased (h.safe p.id hid).noBlank htail
  · rw [(participant_build hd hm hp).2] at hl
    exact (h.links p.id l hl).legible

end Lifeline
