import Lifeline.Proofs.Names
/-!
# Lines of links

A link is read from its line up to the first at sign that can end its label. Most links are
read as they were written; one with an at sign in its label can be read as another link, of
which the line may still be the same.
-/

namespace Lifeline

open Text Text.Pattern

/-- The at sign of a link and the address after it. -/
def atAddress : Matcher (List Char) := blanks (literal ['@'] (blanks address))

/-- The label and the address of a link. -/
def labelAndAddress : Matcher (List Char × List Char) := blanks (someShortest inLine atAddress)

/-- What stands on the line of a link after its participant. -/
def Link.tail (l : Link) : List Char := l.label.text.toList ++ ' ' :: '@' :: ' ' :: l.url.text.toList

/-- A link as it is read from its line. -/
def Link.read (l : Link) : Link :=
  match labelAndAddress (' ' :: l.tail) with
  | some (label, url) => ⟨label.map .char, url.map .char⟩
  | none => l

/-- A link as its line attaches it. -/
def Link.reread (l : Link) : Link := l.read.trimmed

/-- A link whose line is read as a link with the same line. -/
structure Link.Legible (l : Link) : Prop where
  oneLine : OneLine l.label.text.toList
  url : IsLabel l.url.text.toList
  found : (labelAndAddress (' ' :: l.tail)).isSome = true
  kept : l.reread.tail = l.tail

/-! ## Reading a link -/

/-- The id ends at the first colon, as it holds none, and the rest is label and address. -/
theorem linked_tail {id : List Char} (hid : IsId id) (l : Link) :
    linked ("link".toList ++ ' ' :: (id ++ ':' :: ' ' :: l.tail)) =
      (labelAndAddress (' ' :: l.tail)).map fun (label, url) => (id, label, url) := by
  have hcolon : ':' ∉ id := hid.not_mem rfl
  have hh : (id ++ ':' :: ' ' :: l.tail).head? = id.head? := by
    obtain ⟨c, cs, rfl⟩ := List.exists_cons_of_ne_nil hid.ne_nil
    rfl
  have hnext : blanks (literal [':'] labelAndAddress) (':' :: ' ' :: l.tail) = labelAndAddress (' ' :: l.tail) := by
    rw [blanks_of_head (by rintro _ ⟨⟩; rfl)]
    exact literal_append [':'] _ _
  have hinside : ∀ x y, id = x ++ y → y ≠ [] →
      blanks (literal [':'] labelAndAddress) (y ++ ':' :: ' ' :: l.tail) = none := by
    intro x y hxy hy
    refine blanks_literal_eq_none rfl (fun hm => hcolon (by simp [hxy, hm])) ?_ hy _
    intro c hc
    refine hid.tight.2 c ?_
    rw [hxy, List.getLast?_append, Option.mem_def.1 hc]
    rfl
  unfold linked
  rw [literal_append, someBlanks_cons rfl (hh ▸ hid.tight.1)]
  cases hla : labelAndAddress (' ' :: l.tail) with
  | some found =>
    refine someShortest_append _ hid.ne_nil ?_ (hnext.trans hla) fun x y hxy _ hy => hinside x y hxy hy
    intro c hc
    have : c ≠ ':' := fun h => hcolon (h ▸ hc)
    simpa [beforeColon] using this
  | none =>
    refine someShortest_eq_none fun x y hxy _ hx => ?_
    have hx : ':' ∉ x := fun hm => absurd (hx ':' hm) (by decide)
    rcases List.append_eq_append_iff.1 hxy with ⟨z, rfl, hz⟩ | ⟨z, hz, rfl⟩
    · -- Beyond the id there is the colon.
      cases z with
      | nil =>
        obtain rfl : y = ':' :: ' ' :: l.tail := hz.symm
        exact hnext.trans hla
      | cons c z =>
        obtain ⟨rfl, -⟩ := List.cons_eq_cons.1 hz
        exact absurd (by simp) hx
    · cases z with
      | nil => exact hnext.trans hla
      | cons c z => exact hinside x (c :: z) hz (by simp)

theorem LineKind.ofWord_link {line rest : List Char} (h : rest.contains ':' = true) :
    LineKind.ofWord line "link".toList rest = .ok .link := by
  unfold LineKind.ofWord
  rw [h]
  rfl

theorem Link.Legible.tail_oneLine {l : Link} (h : l.Legible) : OneLine l.tail := by
  have hb : isLineBreak ' ' = false := rfl
  have ha : isLineBreak '@' = false := rfl
  simp [Link.tail, h.oneLine, h.url.oneLine, hb, ha]

section Line

variable {p : Participant}

theorem toList_linkLine (p : Participant) (l : Link) :
    (p.linkLine l).toList = "link".toList ++ ' ' :: (p.id.toList ++ ':' :: ' ' :: l.tail) := by
  simp [Participant.linkLine, Link.tail, toString]

/-- The line of a link is known by its first word, whatever the link is. -/
theorem kind_linkLine (p : Participant) (l : Link) : LineKind.ofLine (p.linkLine l) = .ok .link := by
  have hw : Solid "link".toList := by decide
  have hs : splitWord (p.linkLine l).toList = ("link".toList, trim (' ' :: (p.id.toList ++ ':' :: ' ' :: l.tail))) :=
    toList_linkLine p l ▸ splitWord_eq hw (by decide) rfl
  have hcolon : (trim (' ' :: (p.id.toList ++ ':' :: ' ' :: l.tail))).contains ':' = true := by
    rw [List.contains_iff_mem]
    exact mem_trim (by simp) rfl
  rw [kind_of_first (toList_linkLine p l) hw (by decide), hs]
  exact LineKind.ofWord_link hcolon

/-- What is read from the line of a link. -/
theorem statement_linkLine (hid : IsId p.id.toList) (l : Link) :
    Statement.ofKind .link (p.linkLine l) = match labelAndAddress (' ' :: l.tail) with
      | some (label, url) => .ok (.links { id := p.id, links := [⟨label.map .char, url.map .char⟩] })
      | none => .error (.malformedLink (p.linkLine l)) := by
  have hi := hid.readId (p.linkLine l).toList
  have hnone : linkedAll (p.linkLine l).toList = none := by
    rw [toList_linkLine]
    rfl
  have hlinked := linked_tail hid l
  rw [← toList_linkLine] at hlinked
  rw [String.ofList_toList] at hi
  simp only [Statement.ofKind, readLink, hlinked]
  cases labelAndAddress (' ' :: l.tail) with
  | some found => simp only [Option.map_some, hi, Except.map]
  | none => simp only [Option.map_none, hnone, String.ofList_toList]

/-- A link is read from its line. -/
theorem reads_link (hid : IsId p.id.toList) {l : Link} (h : l.Legible) :
    Reads (p.linkLine l) (.links { id := p.id, links := [l.read] }) := by
  have hw : Solid "link".toList := by decide
  have hr := hid.tight.append h.url.tight hid.ne_nil h.url.ne_nil (':' :: ' ' :: (l.label.text.toList ++ [' ', '@', ' ']))
  simp only [List.cons_append, List.append_assoc, List.nil_append] at hr
  have ho : OneLine (p.id.toList ++ ':' :: ' ' :: l.tail) := by
    have hc : isLineBreak ':' = false := rfl
    have hb : isLineBreak ' ' = false := rfl
    simp [hid.oneLine, h.tail_oneLine, hc, hb]
  obtain ⟨⟨label, url⟩, hla⟩ := Option.isSome_iff_exists.1 h.found
  refine .of_kind .link ?_ (kind_linkLine p l) ?_
  · rw [toList_linkLine]
    exact plain_words hw (by decide) (by decide) hr (by simp) ho
  · rw [statement_linkLine hid, Link.read, hla]

end Line

/-! ## Links that are read as they are -/

/-- A link whose address begins where the first at sign after the beginning of the label
ends. -/
structure Link.Clear (l : Link) : Prop where
  label_tight : Tight l.label.text.toList
  label_oneLine : OneLine l.label.text.toList
  url : IsLabel l.url.text.toList
  labelled : l.label.text.toList ≠ [] → '@' ∉ l.label.text.toList.tail
  unlabelled : l.label.text.toList = [] → '@' ∉ l.url.text.toList.dropLast

theorem address_eq {cs : List Char} (h : IsLabel cs) : address cs = some cs := by
  obtain ⟨c, cs, rfl⟩ := List.exists_cons_of_ne_nil h.ne_nil
  have hc := h.tight.1 c rfl
  simp [address, hc, restOfLine_eq h.oneLine]

theorem atAddress_eq {url : List Char} (h : IsLabel url) : atAddress ('@' :: ' ' :: url) = some url := by
  have hu : blanks address (' ' :: url) = some url := by
    rw [blanks_cons rfl h.tight.1, address_eq h]
    rfl
  rw [atAddress, blanks_of_head (by rintro _ ⟨⟩; rfl)]
  exact (literal_append ['@'] _ _).trans hu

theorem atAddress_blank {url : List Char} (h : IsLabel url) : atAddress (' ' :: '@' :: ' ' :: url) = some url := by
  have := atAddress_eq h
  unfold atAddress at this ⊢
  rw [blanks_of_head (by rintro _ ⟨⟩; rfl)] at this
  rw [blanks_cons rfl (by rintro _ ⟨⟩; rfl), this]
  rfl

/-- An at sign with no address after it. -/
theorem atAddress_eq_none {cs : List Char} (h : '@' ∉ cs.dropLast) : atAddress cs = none := by
  rw [atAddress, blanks_literal rfl]
  obtain ⟨x, hx⟩ := List.dropWhile_suffix isBlank (l := cs)
  cases hd : cs.dropWhile isBlank with
  | nil => rfl
  | cons c z =>
    rw [hd] at hx
    by_cases hc : c = '@'
    · subst hc
      have hz : z = [] := by
        cases z with
        | nil => rfl
        | cons d z =>
          refine absurd ?_ h
          rw [← hx, List.dropLast_append_of_ne_nil (by simp), List.dropLast_cons_of_ne_nil (by simp)]
          simp
      subst hz
      rfl
    · exact literal_eq_none (by simpa using hc)

/-- The label as it is read from its line: the blanks around no label are one. -/
def Link.readLabel (l : Link) : List Char := if l.label.text.toList = [] then [' '] else l.label.text.toList

theorem inLine_of_oneLine {cs : List Char} (h : OneLine cs) : ∀ c ∈ cs, inLine c = true := fun c hc => by
  simpa [inLine] using ne_newline h hc

/-- Both blanks before the sign of an address without a label are taken first, and then one of
them is given back to be the label. -/
theorem Link.Clear.read_unlabelled {l : Link} (h : l.Clear) (h0 : l.label.text.toList = []) :
    labelAndAddress (' ' :: l.tail) = some ([' '], l.url.text.toList) := by
  have hnone : someShortest inLine atAddress ('@' :: ' ' :: l.url.text.toList) = none := by
    have hs : shortest inLine atAddress (' ' :: l.url.text.toList) = none := by
      refine shortest_eq_none fun x y hxy _ => atAddress_eq_none fun hm => h.unlabelled h0 ?_
      have hy : y ≠ [] := by
        rintro rfl
        cases hm
      have : '@' ∈ (' ' :: l.url.text.toList).dropLast := by
        rw [hxy, List.dropLast_append_of_ne_nil hy]
        exact List.mem_append_right x hm
      rw [List.dropLast_cons_of_ne_nil h.url.ne_nil] at this
      simpa using this
    simp [someShortest, hs]
  have hone : someShortest inLine atAddress (' ' :: '@' :: ' ' :: l.url.text.toList) =
      some ([' '], l.url.text.toList) :=
    someShortest_append _ (List.cons_ne_nil ' ' []) (by simp [inLine]) (atAddress_eq h.url) (by
      intro x y hxy hx hy
      rcases List.append_eq_singleton_iff.1 hxy.symm with ⟨rfl, -⟩ | ⟨-, rfl⟩
      · exact absurd rfl hx
      · exact absurd rfl hy)
  have hb : isBlank ' ' = true := rfl
  unfold labelAndAddress Link.tail
  rw [h0, List.nil_append, blanks, if_pos hb, blanks_cons hb (by rintro _ ⟨⟩; rfl), hnone, hone]
  rfl

/-- A label ends where the sign of the address begins. -/
theorem Link.Clear.read_labelled {l : Link} (h : l.Clear) (h0 : l.label.text.toList ≠ []) :
    labelAndAddress (' ' :: l.tail) = some (l.label.text.toList, l.url.text.toList) := by
  have hone := someShortest_append atAddress h0 (inLine_of_oneLine h.label_oneLine)
    (atAddress_blank h.url) fun x y hxy hx hy => blanks_literal_eq_none (p := '@') rfl ?_ ?_ hy _
  · unfold labelAndAddress Link.tail
    rw [blanks_cons rfl (List.head?_append_of_ne_nil _ h0 ▸ h.label_tight.1), hone]
    rfl
  · intro hm
    refine h.labelled h0 ?_
    rw [hxy, List.tail_append_of_ne_nil hx]
    exact List.mem_append_right _ hm
  · intro c hc
    refine h.label_tight.2 c ?_
    rw [hxy, List.getLast?_append, Option.mem_def.1 hc]
    rfl

theorem labelAndAddress_eq {l : Link} (h : l.Clear) :
    labelAndAddress (' ' :: l.tail) = some (l.readLabel, l.url.text.toList) := by
  unfold Link.readLabel
  split
  · rename_i h0
    exact h.read_unlabelled h0
  · rename_i h0
    exact h.read_labelled h0

theorem trimmed_map_char (cs : List Char) :
    Points.trimmed (cs.map CodePoint.char) = (trim cs).map CodePoint.char := by
  have := Points.trimmed_ofString (String.ofList cs)
  simpa [Points.ofString, Text.trimmed] using this

theorem map_char_text (ps : Points) : ps.text.toList.map CodePoint.char = ps.standing Half.replaced := by
  simp [Points.text, Points.textWith, Points.standing]

theorem text_standing (ps : Points) : (ps.standing Half.replaced).text = ps.text := by
  have hc : CodePoint.written Half.replaced ∘ (fun p => .char (p.written Half.replaced)) =
      CodePoint.written Half.replaced := rfl
  simp only [Points.standing, Points.text, Points.textWith, List.map_map, hc]

namespace Link.Clear

variable {l : Link}

theorem read_eq (h : l.Clear) : l.read = ⟨l.readLabel.map .char, l.url.text.toList.map .char⟩ := by
  simp only [Link.read, labelAndAddress_eq h]

/-- Only the halves in a clear link are replaced. -/
theorem reread_eq (h : l.Clear) : l.reread = l.standing Half.replaced := by
  have hl : trim l.readLabel = l.label.text.toList := by
    unfold Link.readLabel
    split
    · rename_i h0
      rw [h0]
      rfl
    · exact h.label_tight.trim_eq
  simp only [Link.reread, h.read_eq, Link.trimmed, trimmed_map_char, hl, h.url.tight.trim_eq]
  simp only [map_char_text, Link.standing]

theorem legible (h : l.Clear) : l.Legible where
  oneLine := h.label_oneLine
  url := h.url
  found := by rw [labelAndAddress_eq h]; rfl
  kept := by
    simp only [h.reread_eq, Link.tail, Link.standing, text_standing]

end Link.Clear

end Lifeline
