import Lifeline.Proofs.Breaking
import Lifeline.Proofs.Formatting
/-!
# Links that are read back

The label of a link ends on its line at the first at sign that an address can follow, and
nothing in a label is escaped. A link from a line of its own has such a label. A payload can
bring any text, and a link is read back from its line only if its label holds no at sign
behind its first character and neither part is divided into lines
(`Diagram.links_survive_iff`).
-/

namespace Lifeline

open Text Text.Pattern

/-! ## Where a label ends -/

/-- An address begins where anything but blanks is left. -/
theorem address_isSome {cs : List Char} (ho : OneLine cs) {c : Char} (hc : c ∈ cs) (hb : isBlank c = false) :
    (blanks address cs).isSome = true := by
  induction cs with
  | nil => cases hc
  | cons d cs ih =>
    cases hd : isBlank d with
    | false =>
      have haddress : address (d :: cs) = some (d :: cs) := by simp [address, hd, restOfLine_eq ho]
      exact blanks_isSome (by rw [haddress]; rfl)
    | true =>
      have hmem : c ∈ cs := by
        rcases List.mem_cons.1 hc with rfl | hc
        · simp [hb] at hd
        · exact hc
      obtain ⟨a, ha⟩ := Option.isSome_iff_exists.1 (ih (oneLine_cons.1 ho).2 hmem)
      rw [blanks, if_pos hd, ha]
      rfl

theorem atAddress_isSome {cs : List Char} (ho : OneLine cs) {c : Char} (hc : c ∈ cs) (hb : isBlank c = false) :
    (atAddress ('@' :: cs)).isSome = true := by
  have hat : atAddress ('@' :: cs) = blanks address cs := by
    rw [atAddress, blanks_of_head (by rintro _ ⟨⟩; rfl)]
    exact literal_append ['@'] _ _
  rw [hat]
  exact address_isSome ho hc hb

theorem address_head {cs url : List Char} (h : address cs = some url) : ∃ c ∈ url, isBlank c = false := by
  unfold address at h
  split at h
  · rename_i hb
    cases cs with
    | nil => cases hb
    | cons c cs =>
      have hb : isBlank c = false := by simpa using hb
      have hc : c ≠ '\n' := by
        rintro rfl
        cases hb
      rw [restOfLine.eq_3 _ _ (by simp [hc])] at h
      simp only [beq_iff_eq, hc, if_false] at h
      obtain ⟨rest, -, rfl⟩ := Option.map_eq_some_iff.1 h
      exact ⟨c, List.mem_cons_self, hb⟩
  · cases h

/-- Neither the label nor the address that is read is empty, and the address is not blank. -/
theorem of_labelAndAddress {cs label url : List Char} (h : labelAndAddress cs = some (label, url)) :
    label ≠ [] ∧ ∃ c ∈ url, isBlank c = false := by
  obtain ⟨rest, -, hs⟩ := of_blanks h
  obtain ⟨rest, -, ha⟩ := of_someShortest hs
  obtain ⟨rest, -, ha⟩ := of_blanks ha
  obtain ⟨rest, -, ha⟩ := of_literal ha
  obtain ⟨rest, -, ha⟩ := of_blanks ha
  exact ⟨ne_nil_of_someShortest hs, address_head ha⟩

theorem trim_ne_nil {cs : List Char} {c : Char} (hc : c ∈ cs) (hb : isBlank c = false) : trim cs ≠ [] :=
  List.ne_nil_of_mem (mem_trim hc hb)

namespace Link

/-- A link of which both parts are trimmed and on one line. -/
structure IsPlain (l : Link) : Prop where
  label_tight : Tight l.label.text.toList
  url_tight : Tight l.url.text.toList
  label_oneLine : OneLine l.label.text.toList
  url_oneLine : OneLine l.url.text.toList

variable {l : Link} {label url : List Char}

theorem IsPlain.tail_oneLine (h : l.IsPlain) {x y : List Char} (hxy : l.tail = x ++ y) : OneLine x ∧ OneLine y := by
  have hb : isLineBreak ' ' = false := rfl
  have ha : isLineBreak '@' = false := rfl
  have : OneLine l.tail := by simp [Link.tail, h.label_oneLine, h.url_oneLine, hb, ha]
  rw [hxy] at this
  exact oneLine_append.1 this

/-- An at sign behind the first character of a label ends it too early. -/
theorem IsPlain.label_cut (h : l.IsPlain) (hat : '@' ∈ l.label.text.toList.tail)
    (hread : labelAndAddress (' ' :: l.tail) = some (label, url)) : label.length < l.label.text.toList.length := by
  obtain ⟨c, cs, hl⟩ := List.exists_cons_of_ne_nil (show l.label.text.toList ≠ [] from fun h0 => by simp [h0] at hat)
  rw [hl, List.tail_cons] at hat
  obtain ⟨front, back, hcs⟩ := List.append_of_mem hat
  have htail : l.tail = c :: (front ++ '@' :: (back ++ ' ' :: '@' :: ' ' :: l.url.text.toList)) := by
    simp [Link.tail, hl, hcs]
  obtain ⟨hfront, hback⟩ := h.tail_oneLine (x := c :: front) htail
  have hsome : (atAddress ('@' :: (back ++ ' ' :: '@' :: ' ' :: l.url.text.toList))).isSome = true :=
    atAddress_isSome (oneLine_cons.1 hback).2 (c := '@') (by simp) rfl
  obtain ⟨taken, a, htaken, hle⟩ := someShortest_le (inLine_of_oneLine hfront) hsome
  have hblank : isBlank ' ' = true := rfl
  have hhead : isBlank c = false := h.label_tight.1 c (by simp [hl])
  rw [labelAndAddress, htail, blanks_cons hblank (by simpa using hhead), htaken] at hread
  cases hread
  rw [hl, hcs]
  simp
  omega

/-- Without a label an at sign inside the address ends one that begins with an at sign. -/
theorem IsPlain.label_made (h : l.IsPlain) (h0 : l.label.text.toList = []) (hat : '@' ∈ l.url.text.toList.dropLast)
    (hread : labelAndAddress (' ' :: l.tail) = some (label, url)) : '@' ∈ label := by
  obtain ⟨front, back, hfront⟩ := List.append_of_mem hat
  have hne : l.url.text.toList ≠ [] := fun h0 => by simp [h0] at hat
  have hurl : l.url.text.toList = front ++ '@' :: (back ++ [l.url.text.toList.getLast hne]) := by
    conv_lhs => rw [← List.dropLast_append_getLast hne, hfront]
    simp
  have hlast : isBlank (l.url.text.toList.getLast hne) = false :=
    h.url_tight.2 _ (by rw [List.getLast?_eq_some_getLast hne]; rfl)
  generalize l.url.text.toList.getLast hne = last at hurl hlast
  have htail : l.tail = ' ' :: '@' :: (' ' :: front ++ '@' :: (back ++ [last])) := by
    rw [Link.tail, h0, hurl]
    rfl
  obtain ⟨hfront, hback⟩ := h.tail_oneLine (x := ' ' :: '@' :: ' ' :: front) htail
  have hsome : (atAddress ('@' :: (back ++ [last]))).isSome = true :=
    atAddress_isSome (oneLine_cons.1 hback).2 (c := last) (by simp) hlast
  obtain ⟨taken, a, htaken, -⟩ := someShortest_le (inLine_of_oneLine (oneLine_cons.1 hfront).2) hsome
  have hblank : isBlank ' ' = true := rfl
  -- Both blanks in front are taken first.
  have hblanks : blanks (someShortest inLine atAddress) (' ' :: '@' :: (' ' :: front ++ '@' :: (back ++ [last]))) =
      some ('@' :: taken, a) := by
    rw [blanks_cons hblank (by rintro _ ⟨⟩; rfl), htaken]
    rfl
  rw [labelAndAddress, htail, blanks, if_pos hblank, hblanks] at hread
  cases hread
  exact List.mem_cons_self

/-- What is read from the line of a link is the link but for blanks if and only if its label
can be told from its address. -/
theorem IsPlain.clear_iff (h : l.IsPlain) : l.Clear ↔ ∃ label url, labelAndAddress (' ' :: l.tail) = some (label, url) ∧
    trim label = l.label.text.toList ∧ trim url = l.url.text.toList := by
  constructor
  · intro hc
    refine ⟨_, _, labelAndAddress_eq hc, ?_, hc.url.tight.trim_eq⟩
    unfold readLabel
    split
    · rename_i h0
      rw [h0]
      rfl
    · exact hc.label_tight.trim_eq
  · rintro ⟨label, url, hread, hlabel, hurl⟩
    obtain ⟨c, hc, hb⟩ := (of_labelAndAddress hread).2
    refine ⟨h.label_tight, h.label_oneLine, ⟨hurl ▸ trim_ne_nil hc hb, h.url_tight, h.url_oneLine⟩, ?_, ?_⟩
    · intro _ hat
      have := h.label_cut hat hread
      rw [← hlabel] at this
      exact absurd (length_trim_le label) (by omega)
    · intro h0 hat
      exact absurd (hlabel.trans h0) (trim_ne_nil (h.label_made h0 hat hread) rfl)

/-- A label is read as it is if it is not empty. -/
theorem IsPlain.read_iff (h : l.IsPlain) : labelAndAddress (' ' :: l.tail) = some (l.label.text.toList, l.url.text.toList) ↔
    l.label.text.toList ≠ [] ∧ l.Clear := by
  constructor
  · intro hread
    have hclear := h.clear_iff.2 ⟨_, _, hread, h.label_tight.trim_eq, h.url_tight.trim_eq⟩
    exact ⟨(of_labelAndAddress hread).1, hclear⟩
  · rintro ⟨h0, hclear⟩
    rw [labelAndAddress_eq hclear, readLabel, if_neg h0]

end Link

/-! ## Halves on a line -/

namespace Text

/-- What is written for halves is neither a blank nor an at sign. -/
def Half.Inert (stand : Half → Char) : Prop := ∀ h, isBlank (stand h) = false ∧ stand h ≠ '@'

theorem Half.inert_of_toNat {stand : Half → Char} (h : ∀ x, 0xE000 ≤ (stand x).toNat) : Half.Inert stand := by
  intro x
  have hx := h x
  constructor
  · rw [Bool.eq_false_iff]
    intro hb
    simp only [isBlank, Bool.or_eq_true, Bool.and_eq_true, decide_eq_true_eq, beq_iff_eq] at hb
    omega
  · intro hat
    rw [hat] at hx
    exact absurd hx (by decide)

/-- A text with halves is known by its two writings, and both of them are inert. -/
theorem Half.inert_twofold : Half.Inert Half.first ∧ Half.Inert Half.second := by
  constructor
  · exact Half.inert_of_toNat fun x => by
      rw [Twofold.toNat_first]
      omega
  · exact Half.inert_of_toNat fun x => by
      rw [Twofold.toNat_second]
      omega

/-- Whether a code point ends a line. -/
def CodePoint.isBreak : CodePoint → Bool
  | .char c => isLineBreak c
  | .half _ => false

namespace Half.Inert

variable {stand : Half → Char}

theorem isBlank_written (hs : Half.Inert stand) (p : CodePoint) : Text.isBlank (p.written stand) = p.isBlank := by
  cases p with
  | char c => rfl
  | half h => exact (hs h).1

theorem isBreak_written (hs : Half.Inert stand) (p : CodePoint) : isLineBreak (p.written stand) = p.isBreak := by
  cases p with
  | char c => rfl
  | half h =>
    have hb := (hs h).1
    rw [CodePoint.written, CodePoint.isBreak, ← Bool.not_eq_true]
    exact fun hbreak => absurd (isBlank_of_isLineBreak hbreak) (by simp [hb])

theorem written_eq_at (hs : Half.Inert stand) (p : CodePoint) : p.written stand = '@' ↔ p = .char '@' := by
  cases p with
  | char c => simp [CodePoint.written]
  | half h => simp [CodePoint.written, (hs h).2]

theorem at_mem (hs : Half.Inert stand) (ps : Points) : '@' ∈ ps.map (CodePoint.written stand) ↔ .char '@' ∈ ps := by
  simp only [List.mem_map, hs.written_eq_at, exists_eq_right]

theorem oneLine (hs : Half.Inert stand) (ps : Points) :
    OneLine (ps.map (CodePoint.written stand)) ↔ ∀ p ∈ ps, p.isBreak = false := by
  simp only [OneLine, List.forall_mem_map, hs.isBreak_written]

/-- Code points are trimmed as what is written for them is. -/
theorem written_trimmed (hs : Half.Inert stand) (ps : Points) :
    ps.trimmed.map (CodePoint.written stand) = trim (ps.map (CodePoint.written stand)) := by
  have hb : Text.isBlank ∘ CodePoint.written stand = CodePoint.isBlank := funext hs.isBlank_written
  simp only [Points.trimmed, trim, trimEnd, trimStart, List.dropWhile_map, ← List.map_reverse, hb]

end Half.Inert

theorem toList_standing (stand : Half → Char) (ps : Points) :
    (ps.standing stand).text.toList = ps.map (CodePoint.written stand) := by
  have hc : CodePoint.written Half.replaced ∘ (fun p => .char (p.written stand)) = CodePoint.written stand := rfl
  simp only [Points.standing, Points.text, Points.textWith, List.map_map, hc, String.toList_ofList]

end Text

namespace Link

/-- A link whose label ends on its line where the address begins. -/
def IsApart (l : Link) : Prop :=
  l.url ≠ [] ∧ .char '@' ∉ l.label.tail ∧ (l.label = [] → .char '@' ∉ l.url.dropLast) ∧
    ∀ p ∈ l.label ++ l.url, p.isBreak = false

instance (l : Link) : Decidable l.IsApart := inferInstanceAs (Decidable (_ ∧ _))

variable {l : Link} {stand : Half → Char}

/-- A trimmed link with something inert in the places of its halves. -/
theorem isPlain_standing (hs : Half.Inert stand) (ht : ∃ k : Link, l = k.trimmed)
    (ho : ∀ p ∈ l.label ++ l.url, p.isBreak = false) : (l.standing stand).IsPlain := by
  obtain ⟨k, rfl⟩ := ht
  have ho := List.forall_mem_append.1 ho
  unfold Link.standing Link.trimmed
  constructor
  · rw [toList_standing, hs.written_trimmed]
    exact tight_trim _
  · rw [toList_standing, hs.written_trimmed]
    exact tight_trim _
  · rw [toList_standing, hs.oneLine]
    exact ho.1
  · rw [toList_standing, hs.oneLine]
    exact ho.2

theorem clear_standing_iff (hs : Half.Inert stand) (ht : ∃ k : Link, l = k.trimmed)
    (ho : ∀ p ∈ l.label ++ l.url, p.isBreak = false) : (l.standing stand).Clear ↔ l.IsApart := by
  have hplain := isPlain_standing hs ht ho
  have hlabel : (l.standing stand).label.text.toList = l.label.map (CodePoint.written stand) := toList_standing _ _
  have hurl : (l.standing stand).url.text.toList = l.url.map (CodePoint.written stand) := toList_standing _ _
  constructor
  · intro hc
    refine ⟨?_, ?_, ?_, ho⟩
    · simpa [hurl] using hc.url.ne_nil
    · by_cases h0 : l.label = []
      · simp [h0]
      · have := hc.labelled (by simpa [hlabel] using h0)
        rwa [hlabel, ← List.map_tail, hs.at_mem] at this
    · intro h0
      have := hc.unlabelled (by simp [hlabel, h0])
      rwa [hurl, ← List.map_dropLast, hs.at_mem] at this
  · rintro ⟨hne, hlabelled, hunlabelled, -⟩
    have hurl0 : (l.standing stand).url.text.toList ≠ [] := by simpa [hurl] using hne
    refine ⟨hplain.label_tight, hplain.label_oneLine, ⟨hurl0, hplain.url_tight, hplain.url_oneLine⟩, fun _ => ?_, fun h0 => ?_⟩
    · rwa [hlabel, ← List.map_tail, hs.at_mem]
    · rw [hurl, ← List.map_dropLast, hs.at_mem]
      exact hunlabelled (by simpa [hlabel] using h0)

end Link

/-! ## The links of a participant -/

/-- A statement with its links as they are attached. -/
def Statement.attached : Statement → Statement
  | .links s => .links { s with links := s.links.map Link.trimmed }
  | s => s

/-- Whether the links of a participant are written on single lines of links, and read from
them one by one. -/
def Participant.KeepsLinks (p : Participant) (read : String → Reading Statement) : Prop :=
  (∀ line ∈ p.linkLines, OneLine line.toList ∧ LineKind.ofLine line = .ok .link) ∧
    p.linkLines.map read = p.links.map fun l => .ok (.links { id := p.id, links := [l] })

instance (p : Participant) (read : String → Reading Statement) : Decidable (p.KeepsLinks read) :=
  inferInstanceAs (Decidable (_ ∧ _))

/-- The links that stand on a line. -/
def readLinks (line : String) : Reading Statement := Statement.ofKind .link line

/-- The links that a line attaches. -/
def attachLinks (line : String) : Reading Statement := (Statement.ofKind .link line).map Statement.attached

section

variable {p : Participant} {stand : Half → Char} {l : Link}

theorem oneLine_linkLine (hid : IsId p.id.toList) (hs : Half.Inert stand) :
    OneLine (p.linkLine (l.standing stand)).toList ↔ ∀ c ∈ l.label ++ l.url, c.isBreak = false := by
  have hlabel : OneLine (l.standing stand).label.text.toList ↔ ∀ c ∈ l.label, c.isBreak = false := by
    rw [← hs.oneLine, ← toList_standing]
    rfl
  have hurl : OneLine (l.standing stand).url.text.toList ↔ ∀ c ∈ l.url, c.isBreak = false := by
    rw [← hs.oneLine, ← toList_standing]
    rfl
  have hb : isLineBreak ' ' = false := rfl
  have hc : isLineBreak ':' = false := rfl
  have ha : isLineBreak '@' = false := rfl
  have hword : OneLine "link".toList := by decide
  rw [toList_linkLine, List.forall_mem_append, ← hlabel, ← hurl, oneLine_append, and_iff_right hword]
  simp [Link.tail, hb, hc, ha, hid.oneLine]

/-- What is read as characters is a link without halves if the characters are the same. -/
theorem eq_standing_iff {label url : List Char} : (⟨label.map .char, url.map .char⟩ : Link) = l.standing stand ↔
    label = (l.standing stand).label.text.toList ∧ url = (l.standing stand).url.text.toList := by
  have hinj : ∀ {cs ds : List Char}, cs.map CodePoint.char = ds.map CodePoint.char ↔ cs = ds :=
    List.map_inj_right fun _ _ h => CodePoint.char.inj h
  have hpoints : ∀ ps : Points, ps.standing stand = (ps.standing stand).text.toList.map .char := fun ps => by
    rw [toList_standing, Points.standing, List.map_map]
    rfl
  rw [← hinj, ← @hinj url]
  unfold Link.standing
  rw [Link.mk.injEq, ← hpoints, ← hpoints]

/-- A link is read from its line as it is if and only if it has a label that ends where its
address begins. -/
theorem readLinks_iff (hid : IsId p.id.toList) (hs : Half.Inert stand) (ht : ∃ k : Link, l = k.trimmed)
    (ho : ∀ c ∈ l.label ++ l.url, c.isBreak = false) :
    readLinks (p.linkLine (l.standing stand)) = .ok (.links { id := p.id, links := [l.standing stand] }) ↔
      l.label ≠ [] ∧ l.IsApart := by
  have hplain := Link.isPlain_standing hs ht ho
  have h0 : (l.standing stand).label.text.toList ≠ [] ↔ l.label ≠ [] := by
    rw [show (l.standing stand).label.text.toList = _ from toList_standing _ _]
    simp
  rw [← Link.clear_standing_iff hs ht ho, ← h0, ← hplain.read_iff, readLinks, statement_linkLine hid]
  cases labelAndAddress (' ' :: (l.standing stand).tail) with
  | none => simp
  | some found =>
    obtain ⟨label, url⟩ := found
    simp [eq_standing_iff]

/-- A link is attached by its line as it is if and only if its label, if it has one, ends
where its address begins. -/
theorem attachLinks_iff (hid : IsId p.id.toList) (hs : Half.Inert stand) (ht : ∃ k : Link, l = k.trimmed)
    (ho : ∀ c ∈ l.label ++ l.url, c.isBreak = false) :
    attachLinks (p.linkLine (l.standing stand)) = .ok (.links { id := p.id, links := [l.standing stand] }) ↔ l.IsApart := by
  have hplain := Link.isPlain_standing hs ht ho
  rw [← Link.clear_standing_iff hs ht ho, hplain.clear_iff, attachLinks, statement_linkLine hid]
  cases labelAndAddress (' ' :: (l.standing stand).tail) with
  | none => simp [Except.map]
  | some found =>
    obtain ⟨label, url⟩ := found
    simp [Except.map, Statement.attached, Link.trimmed, trimmed_map_char, eq_standing_iff]

/-- The links of a participant are kept if each of them is, on its line. -/
theorem keepsLinks_iff {read : String → Reading Statement} {P : Link → Prop} (hid : IsId p.id.toList) (hs : Half.Inert stand)
    (hP : ∀ l, P l → l.IsApart)
    (hread : ∀ l ∈ p.links, (∀ c ∈ l.label ++ l.url, c.isBreak = false) →
      (read (p.linkLine (l.standing stand)) = .ok (.links { id := p.id, links := [l.standing stand] }) ↔ P l)) :
    (p.standing stand).KeepsLinks read ↔ ∀ l ∈ p.links, P l := by
  have hline : ∀ l, (p.standing stand).linkLine l = p.linkLine l := fun _ => rfl
  unfold Participant.KeepsLinks Participant.linkLines
  simp only [Participant.standing, List.map_map, List.forall_mem_map, List.map_inj_left, Function.comp_apply]
  constructor
  · rintro ⟨hone, heq⟩ l hl
    exact (hread l hl ((oneLine_linkLine hid hs).1 (hone l hl).1)).1 (heq l hl)
  · intro h
    refine ⟨fun l hl => ⟨(oneLine_linkLine hid hs).2 (hP l (h l hl)).2.2.2, kind_linkLine _ _⟩, fun l hl => ?_⟩
    exact (hread l hl (hP l (h l hl)).2.2.2).2 (h l hl)

end

/-- A link is attached without blanks around its parts. -/
theorem Event.trimmed_of_link? {id : String} {e : Event} {l : Link} (h : e.link? id = some l) : ∃ k : Link, l = k.trimmed := by
  cases e with
  | link i k =>
    obtain ⟨-, h⟩ := Option.ite_none_right_eq_some.1 h
    exact ⟨k, (Option.some.inj h).symm⟩
  | _ => cases h

/-- The links on a card have no blanks around their parts. -/
def Card.LinksTrimmed (c : Card) : Prop :=
  ∀ l ∈ c.links, ∃ k : Link, l = k.trimmed

theorem Card.LinksTrimmed.after {c : Card} (hc : c.LinksTrimmed) (id : String) (e : Event) : (c.after id e).LinksTrimmed := by
  unfold Card.after
  split
  · exact hc
  · intro l hl
    cases List.mem_append.1 hl with
    | inl hl => exact hc l hl
    | inr hl => exact Event.trimmed_of_link? (Option.mem_toList.1 hl)

theorem Draft.Steps.links_trimmed {d : Draft} {es : List Event} (hs : Draft.Steps {} es d) (id : String) :
    (d.roster.card id).LinksTrimmed := by
  rw [hs.card]
  exact List.foldlRecOn es _ nofun fun _ hc e _ => hc.after id e

/-- The links of each participant of a diagram that is read from a source are read from their
lines as they are if and only if each has a label that ends where its address begins; and
they are attached by their lines as they are if and only if each label ends there, if there
is one. -/
theorem Diagram.links_survive_iff {source : String} {strict : Bool} {m : Diagram} (h : Diagram.read source strict = .ok m)
    {p : Participant} (hp : p ∈ m.participants) {stand : Half → Char} (hs : Half.Inert stand) :
    ((p.standing stand).KeepsLinks readLinks ↔ ∀ l ∈ p.links, l.label ≠ [] ∧ l.IsApart) ∧
      ((p.standing stand).KeepsLinks attachLinks ↔ ∀ l ∈ p.links, l.IsApart) := by
  obtain ⟨d, es, hsteps, -, -, hid, he⟩ := Diagram.participant_of_read (Diagram.read_lenient h) hp
  have htrimmed : ∀ l ∈ p.links, ∃ k : Link, l = k.trimmed := by
    rw [he]
    exact hsteps.links_trimmed p.id
  constructor
  · exact keepsLinks_iff hid hs (fun l hl => hl.2) fun l hl ho => readLinks_iff hid hs (htrimmed l hl) ho
  · exact keepsLinks_iff hid hs (fun l hl => hl) fun l hl ho => attachLinks_iff hid hs (htrimmed l hl) ho

/-- The links that the members of a payload stand for. -/
def linksOf (members : List Json.Member) : List Link := members.map fun (label, url) => ⟨label, url.shown⟩

/-- A line with an object in its payload is read as the links of its members. -/
theorem Statement.ofLine_payload {line name : String} {id payload : List Char} {members : List Json.Member}
    (h : linkedAll line.toList = some (id, payload)) (hid : readId line.toList id = .ok name)
    (hjson : Json.read payload = .ok (.object members)) :
    Statement.ofLine line = .ok (.links { id := name, links := linksOf members }) := by
  obtain ⟨hkind, hlinked⟩ := LineKind.ofLine_links h
  simp only [Statement.ofLine, hkind, Statement.ofKind, readLink, hlinked, h, readPayload, hjson, hid, Except.map, linksOf]

/-- A diagram with nothing but a participant. -/
def Participant.alone (p : Participant) : Diagram := { participants := [p] }

/-- A source whose last line has a payload, behind the header and another line. -/
theorem Diagram.read_payload {source name : String} {first line : SourceLine} {id payload : List Char}
    {members : List Json.Member} {s : Session} (hlines : significantLines source = [⟨1, headerWord⟩, first, line])
    (h : linkedAll line.text.toList = some (id, payload)) (hid : readId line.text.toList id = .ok name)
    (hjson : Json.read payload = .ok (.object members))
    (hs : Session.andThen (({} : Session).readLine false first)
      (fun s => s.feed false line (.links { id := name, links := linksOf members })) = (s, none))
    (hopen : s.draft.frames = []) : Diagram.read source false = .ok s.finish.2 := by
  have hread : ({} : Session).readLines false [first, line] = (s, none) := by
    simp only [Session.readLines, Session.readLine_of_ok (Statement.ofLine_payload h hid hjson), Session.andThen_done, hs]
  have hstep : Session.andThen (({} : Session).readLines false [first, line])
      (fun s => s.reportOpen false s.draft.frames.reverse) = (s, none) := by
    rw [hread, Session.andThen, hopen]
    rfl
  exact Diagram.read_eq hlines kind_header hstep rfl

/-- A participant with a link whose label begins with an at sign, and one with a half in its
address. -/
def linkedParticipant : Participant :=
  { id := "A", links := [⟨.ofString "@home", .ofString "a@b"⟩, ⟨.ofString "half", [.half 0]⟩] }

/-- A source of links with signs in their outer places. -/
def linkedSource : String :=
  "sequenceDiagram\nparticipant A\nlinks A: \x7b\"@home\": \"a@b\", \"half\": \"\\ud800\"\x7d\n"

/-- An at sign at the beginning of a label or in an address does no harm. -/
theorem outer_signs_survive : Diagram.read linkedSource false = .ok linkedParticipant.alone ∧
    linkedParticipant ∈ linkedParticipant.alone.participants ∧ Half.Inert Half.first ∧
    (linkedParticipant.standing Half.first).KeepsLinks readLinks := by
  have hjson : Json.read ['\x7b', '"', '@', 'h', 'o', 'm', 'e', '"', ':', ' ', '"', 'a', '@', 'b', '"', ',', ' ',
      '"', 'h', 'a', 'l', 'f', '"', ':', ' ', '"', '\\', 'u', 'd', '8', '0', '0', '"', '\x7d'] =
      .ok (.object [(.ofString "@home", .text (.ofString "a@b")), (.ofString "half", .text [.half 0])]) := by
    cbv
  have hread : Diagram.read linkedSource false = .ok linkedParticipant.alone := by
    have hlines : significantLines linkedSource = [⟨1, headerWord⟩, ⟨2, "participant A"⟩,
        ⟨3, "links A: \x7b\"@home\": \"a@b\", \"half\": \"\\ud800\"\x7d"⟩] := by decide +kernel
    exact Diagram.read_payload hlines rfl rfl hjson rfl rfl
  have hmem : linkedParticipant ∈ linkedParticipant.alone.participants := List.mem_cons_self
  have hapart : ∀ l ∈ linkedParticipant.links, l.label ≠ [] ∧ l.IsApart := by decide +kernel
  have hinert := Half.inert_twofold.1
  exact ⟨hread, hmem, hinert, (Diagram.links_survive_iff hread hmem hinert).1.2 hapart⟩

/-- A participant with an at sign inside the label of a link. -/
def cutParticipant : Participant := { id := "A", links := [⟨.ofString "a@b", .ofString "u"⟩] }

/-- An at sign inside a label ends it. -/
theorem inner_sign_is_lost : ∃ source m p, Diagram.read source false = .ok m ∧ m.diagnostics = [] ∧ p ∈ m.participants ∧
    ¬p.KeepsLinks readLinks ∧ ¬p.KeepsLinks attachLinks := by
  have hjson : Json.read ['\x7b', '"', 'a', '@', 'b', '"', ':', ' ', '"', 'u', '"', '\x7d'] =
      .ok (.object [(.ofString "a@b", .text (.ofString "u"))]) := by
    cbv
  refine ⟨"sequenceDiagram\nparticipant A\nlinks A: \x7b\"a@b\": \"u\"\x7d\n", cutParticipant.alone, cutParticipant, ?_, rfl,
    List.mem_cons_self, by decide +kernel, by decide +kernel⟩
  have hlines : significantLines "sequenceDiagram\nparticipant A\nlinks A: \x7b\"a@b\": \"u\"\x7d\n" =
      [⟨1, headerWord⟩, ⟨2, "participant A"⟩, ⟨3, "links A: \x7b\"a@b\": \"u\"\x7d"⟩] := by decide +kernel
  exact Diagram.read_payload hlines rfl rfl hjson rfl rfl

end Lifeline
