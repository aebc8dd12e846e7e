import Lifeline.Proofs.Messages
/-!
# The first word of a message

A line is a message by its arrow only if its first word is no keyword. No keyword holds a
sign, so a source with a mark or without blanks makes the line a message; one of several
words does if its first word does not mislead.
-/

namespace Lifeline

open Text

/-- Whether the id at the beginning of a line makes it another statement than a message;
`said` says whether a text follows. -/
def misleads (id : List Char) (said : Bool) : Bool :=
  let (word, rest) := splitWord id
  let keyword := String.ofList word
  let inner := splitWord rest
  !rest.isEmpty && (declares keyword || (keyword == "create" && declares (String.ofList inner.1) && !inner.2.isEmpty) ||
    keyword == "destroy" || foldWord word == "note".toList || keyword == "activate" || keyword == "deactivate" ||
    ((keyword == "link" || keyword == "links") && said) || (BlockKind.ofKeyword? keyword).isSome || keyword == "box" ||
    (BlockKind.ofBranchKeyword? keyword).isSome)

/-- A single word does not mislead. -/
theorem misleads_of_solid {id : List Char} (h : Solid id) (said : Bool) : misleads id said = false := by
  simp [misleads, splitWord_solid h]

namespace LineKind

/-! ## Words with a sign -/

section Sign

variable {word : List Char} {c : Char}

theorem ne_of_mark (hc : isMark c = true) (hw : c ∈ word) {k : String} (hk : (k.toList.all fun c => !isMark c) = true) :
    (String.ofList word == k) = false := by
  refine beq_eq_false_iff_ne.2 ?_
  rintro rfl
  have := List.all_eq_true.1 hk c (by simpa using hw)
  simp [hc] at this

theorem declares_of_mark (hc : isMark c = true) (hw : c ∈ word) : declares (String.ofList word) = false := by
  have hk : ∀ {k : String}, (k.toList.all fun c => !isMark c) = true → _ := ne_of_mark hc hw
  simp [declares, ParticipantKind.ofKeyword?, @hk "participant" (by decide), @hk "actor" (by decide)]

/-- No keyword claims a line whose first word holds a sign. -/
theorem unclaimed_of_mark (hc : isMark c = true) (hw : c ∈ word) (rest : List Char) :
    isClaimed word rest = false ∧ (BlockKind.ofBranchKeyword? (String.ofList word)).isSome = false := by
  have hk : ∀ k : String, (k.toList.all fun c => !isMark c) = true → (String.ofList word == k) = false := fun _ =>
    ne_of_mark hc hw
  have hnote : (foldWord word == "note".toList) = false := by
    refine beq_eq_false_iff_ne.2 fun h => ?_
    have hm : fold c ∈ "note".toList := h ▸ List.mem_map_of_mem hw
    rcases Bool.or_eq_true _ _ ▸ hc with h | h <;> (rw [beq_iff_eq] at h; subst h; exact absurd hm (by decide))
  have hblock : (BlockKind.ofKeyword? (String.ofList word)).isSome = false := by
    cases hkind : BlockKind.ofKeyword? (String.ofList word) with
    | none => rfl
    | some kind =>
      have hne := beq_eq_false_iff_ne.1 (hk kind.keyword (by cases kind <;> decide))
      exact absurd (BlockKind.keyword_of_ofKeyword? hkind).symm hne
  have hbranch : (BlockKind.ofBranchKeyword? (String.ofList word)).isSome = false := by
    cases hkind : BlockKind.ofBranchKeyword? (String.ofList word) with
    | none => rfl
    | some kind =>
      have hword := BlockKind.branchKeyword?_of_ofBranchKeyword? hkind
      have hne : ∀ k, kind.branchKeyword? = some k → (String.ofList word == k) = false := by
        intro k hk'
        refine hk k ?_
        cases kind <;> cases hk' <;> decide
      simpa using hne _ hword
  refine ⟨?_, hbranch⟩
  simp only [isClaimed, hk headerWord (by decide), hk autonumberWord (by decide), declares_of_mark hc hw,
    hk "create" (by decide), hk "destroy" (by decide), hnote, hk "activate" (by decide), hk "deactivate" (by decide),
    hk "link" (by decide), hk "links" (by decide), hblock, hk "box" (by decide), Bool.false_and, Bool.or_self]

end Sign

/-! ## Words in front of an arrow -/

/-- A line that no keyword claims is a message by its arrow. -/
theorem ofWord_message {line word rest : List Char} (h : isClaimed word rest = false)
    (hb : (BlockKind.ofBranchKeyword? (String.ofList word)).isSome = false) (hl : '-' ∈ line)
    (ha : (Arrow.find? (messageHead line)).isSome = true) : ofWord line word rest = .ok .message := by
  have hend : (line == endWord.toList) = false := by
    refine beq_eq_false_iff_ne.2 ?_
    rintro rfl
    exact absurd hl (by decide)
  simp [ofWord_unclaimed h, unclaimed, hb, hend, ha]

theorem unclaimed_of_message {line word rest : List Char} (h : ofWord line word rest = .ok .message) :
    isClaimed word rest = false ∧ (BlockKind.ofBranchKeyword? (String.ofList word)).isSome = false := by
  obtain ⟨hc, hu⟩ := eq_unclaimed h rfl
  refine ⟨hc, ?_⟩
  unfold unclaimed at hu
  split at hu
  · cases hu
  · rename_i hb
    simpa using hb

/-- The id at the beginning of a message does not mislead. -/
theorem not_misleads {id rest : List Char} (hid : Tight id) (ht : Tight (id ++ rest)) {said : Bool}
    (hs : said = true → ':' ∈ rest) (hc : isClaimed (splitWord (id ++ rest)).1 (splitWord (id ++ rest)).2 = false)
    (hb : (BlockKind.ofBranchKeyword? (String.ofList (splitWord (id ++ rest)).1)).isSome = false) :
    misleads id said = false := by
  by_cases hr : (splitWord id).2 = []
  · simp [misleads, hr]
  · obtain ⟨hsplit, ht'⟩ := splitWord_more hid hr ht
    have hne : ((splitWord id).2 ++ rest).isEmpty = false := by simp [hr]
    simp only [hsplit, isClaimed, Bool.or_eq_false_iff, hne, Bool.not_false, Bool.and_true] at hc hb
    obtain ⟨⟨⟨⟨⟨⟨⟨⟨⟨-, -⟩, hdecl⟩, hcreated⟩, hdestroy⟩, hnote⟩, hact⟩, hlink⟩, hblock⟩, hbox⟩ := hc
    have hcreate : (String.ofList (splitWord id).1 == "create" && declares (String.ofList (splitWord (splitWord id).2).1) &&
        !(splitWord (splitWord id).2).2.isEmpty) = false := by
      by_cases hm : (splitWord (splitWord id).2).2 = []
      · simp [hm]
      · have hrest : Tight (splitWord id).2 := tight_trim _
        rw [(splitWord_more hrest hm ht').1] at hcreated
        simpa [hm] using hcreated
    have hlinks : ((String.ofList (splitWord id).1 == "link" || String.ofList (splitWord id).1 == "links") && said) = false := by
      cases said with
      | false => simp
      | true => simpa [hs rfl] using hlink
    simp only [misleads, hdecl, hcreate, hdestroy, hnote, hact, hlinks, hblock, hbox, hb, Bool.or_self, Bool.and_false]

/-- No keyword claims a line that begins with an id that does not mislead. -/
theorem unclaimed_of_words {id a rest : List Char} (hid : Tight id) (hr : (splitWord id).2 ≠ [])
    (ha : Solid a) (hm : '-' ∈ a) (ht : Tight (id ++ (a ++ rest))) {said : Bool} (hcolon : ':' ∉ id)
    (hs : ':' ∈ a ++ rest → said = true) (h : misleads id said = false) :
    isClaimed (splitWord (id ++ (a ++ rest))).1 (splitWord (id ++ (a ++ rest))).2 = false ∧
      (BlockKind.ofBranchKeyword? (String.ofList (splitWord (id ++ (a ++ rest))).1)).isSome = false := by
  obtain ⟨hsplit, ht'⟩ := splitWord_more hid hr ht
  have hne : (splitWord id).2.isEmpty = false := by simp [hr]
  have hne' : ((splitWord id).2 ++ (a ++ rest)).isEmpty = false := by simp [hr]
  simp only [misleads, hne, Bool.not_false, Bool.true_and, Bool.or_eq_false_iff] at h
  obtain ⟨⟨⟨⟨⟨⟨⟨⟨⟨hdecl, hcreate⟩, hdestroy⟩, hnote⟩, hact⟩, hdeact⟩, hlink⟩, hblock⟩, hbox⟩, hb⟩ := h
  refine ⟨?_, by rw [hsplit]; exact hb⟩
  have hcreate' : (String.ofList (splitWord id).1 == "create" &&
      declares (String.ofList (splitWord ((splitWord id).2 ++ (a ++ rest))).1) &&
        !(splitWord ((splitWord id).2 ++ (a ++ rest))).2.isEmpty) = false := by
    have hrest : Tight (splitWord id).2 := tight_trim _
    by_cases hm' : (splitWord (splitWord id).2).2 = []
    · rcases hrest.words with ⟨-, hsolid⟩ | ⟨b, -, -, -, -, -, hne⟩
      · have hword : Solid ((splitWord id).2 ++ a) := fun c hc => (List.mem_append.1 hc).elim (hsolid c) (ha c)
        have hdash : '-' ∈ (splitWord (((splitWord id).2 ++ a) ++ rest)).1 :=
          mem_splitWord_fst hword (List.mem_append_right _ hm)
        rw [List.append_assoc] at hdash
        simp [declares_of_mark rfl hdash]
      · exact absurd hm' hne
    · rw [(splitWord_more hrest hm' ht').1]
      simpa [hm'] using hcreate
  have hlinks : ((String.ofList (splitWord id).1 == "link" || String.ofList (splitWord id).1 == "links") &&
      ((splitWord id).2 ++ (a ++ rest)).contains ':') = false := by
    have hc : ':' ∉ (splitWord id).2 := fun h => hcolon (mem_of_mem_splitWord h)
    cases hsaid : said with
    | true => simp_all
    | false =>
      have : ':' ∉ a ++ rest := fun h => by simp [hs h] at hsaid
      simp_all
  simp only [hsplit, isClaimed, hdecl, hcreate', hdestroy, hnote, hact, hdeact, hlinks, hblock, hbox, hne', Bool.and_false,
    Bool.false_and, Bool.or_self]

end LineKind

namespace Message

variable {m : Message}

theorem literal_solid (a : Arrow) : Solid a.literal ∧ '-' ∈ a.literal := by
  obtain ⟨line, head⟩ := a
  cases line <;> cases head <;> decide

/-- A message that can be separated is one by its arrow, if no keyword claims its line. -/
theorem Separable.kind_of_unclaimed (h : m.Separable)
    (hc : LineKind.isClaimed (splitWord m.line.toList).1 (splitWord m.line.toList).2 = false ∧
      (BlockKind.ofBranchKeyword? (String.ofList (splitWord m.line.toList).1)).isSome = false) :
    LineKind.ofLine m.line = .ok .message := by
  refine LineKind.ofWord_message hc.1 hc.2 ?_ ?_
  · simp [line_toList, (literal_solid m.arrow).2]
  · simp [messageHead_eq h.source.id h.target.id, h.find?_eq]

theorem Separable.kind_of_mark (h : m.Separable) {w rest : List Char} (hl : m.line.toList = w ++ rest) (hw : Solid w)
    {c : Char} (hc : c ∈ w) (hm : isMark c = true) : LineKind.ofLine m.line = .ok .message :=
  h.kind_of_unclaimed (LineKind.unclaimed_of_mark hm (hl ▸ mem_splitWord_fst hw hc) _)

/-- A marked source makes the line a message. -/
theorem Separable.kind_of_marked (h : m.Separable) (hf : m.source.isFree = false) :
    LineKind.ofLine m.line = .ok .message := by
  have hsolid : Solid ['+'] ∧ Solid ['-'] := by decide
  have hl := m.line_toList
  rcases m.source.written_cases h.source.one with ⟨-, -, hw⟩ | ⟨-, -, hw⟩ | ⟨-, -, hfree, -⟩
  · rw [hw] at hl
    exact h.kind_of_mark (w := ['+']) hl hsolid.1 (List.mem_singleton_self '+') rfl
  · rw [hw] at hl
    exact h.kind_of_mark (w := ['-']) hl hsolid.2 (List.mem_singleton_self '-') rfl
  · simp [hf] at hfree

/-- A source without blanks makes the line a message. -/
theorem Separable.kind_of_solid (h : m.Separable) (hs : Solid m.source.written) :
    LineKind.ofLine m.line = .ok .message := by
  obtain ⟨ha, hd⟩ := literal_solid m.arrow
  have hw : Solid (m.source.written ++ m.arrow.literal) := by
    intro c hc
    rcases List.mem_append.1 hc with hc | hc
    · exact hs c hc
    · exact ha c hc
  exact h.kind_of_mark (by rw [line_toList, List.append_assoc, List.append_assoc, ← List.append_assoc]) hw
    (List.mem_append_right _ hd) rfl

/-- What the parts of a message can be, of which the line is a message's. -/
structure Fits (m : Message) : Prop where
  source : m.source.FitsSource
  target : m.target.LegibleTarget
  text : ∀ t ∈ m.text, IsSaid t.toList
  notComment : m.source.isFree = true → ['%', '%'].isPrefixOf m.source.id.toList = false
  leads : m.source.isFree = true → misleads m.source.id.toList m.text.isSome = false

/-- A message whose ends do not run into its arrow is read from its line. -/
theorem Fits.legible (h : m.Fits)
    (hTip : m.source.deactivates = true → ∀ c ∈ m.source.id.toList.head?, Arrow.isTip c = false)
    (hDash : m.source.id.toList.getLast? = some '-' → m.arrow.isThin = false) : m.Legible := by
  have hsep : m.Separable := ⟨{ h.source with noTip := fun _ => hTip }, h.target, hDash⟩
  refine { hsep with text := h.text, notComment := h.notComment, kind := ?_ }
  cases hf : m.source.isFree with
  | false => exact hsep.kind_of_marked hf
  | true =>
    have hid := h.source.id
    have hw : m.source.written = m.source.id.toList := by
      rcases m.source.written_cases h.source.one with ⟨ha, -, -⟩ | ⟨-, hd, -⟩ | ⟨-, -, -, hw⟩
      · simp [Endpoint.isFree, ha] at hf
      · simp [Endpoint.isFree, hd] at hf
      · exact hw
    rcases hid.tight.words with ⟨-, hsolid⟩ | ⟨b, -, -, -, -, -, hr⟩
    · exact hsep.kind_of_solid (hw ▸ hsolid)
    · have hl : m.line.toList = m.source.id.toList ++ (m.arrow.literal ++ (m.target.written ++ textTail m.text)) := by
        rw [line_toList, hw]
        simp
      have ht : Tight m.line.toList := (isLabel_withText (isLabel_head hsep.source hsep.target) h.text).tight
      obtain ⟨ha, hd⟩ := literal_solid m.arrow
      refine hsep.kind_of_unclaimed ?_
      rw [hl] at ht ⊢
      refine LineKind.unclaimed_of_words hid.tight hr ha hd ht (hid.not_mem rfl) (fun hm => ?_) (h.leads hf)
      have hcolon := literal_noColon m.arrow
      have htarget := not_mem_written hsep.target.id (c := ':') rfl
      cases htext : m.text with
      | some t => rfl
      | none => simp [htext, textTail, hcolon, htarget] at hm

end Message

end Lifeline
