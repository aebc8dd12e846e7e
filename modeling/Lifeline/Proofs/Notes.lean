import Lifeline.Proofs.Texts
/-!
# Lines of notes

A note is read from its line as it was written.
-/

namespace Lifeline

open Text Text.Pattern

/-- What a note line can hold. -/
structure Note.Legible (n : Note) : Prop where
  targets : ∀ id ∈ n.targets, IsId id.toList
  valid : n.fault? = none
  text : IsSaid n.text.toList

theorem readIds_eq {ids : List String} (h : ∀ id ∈ ids, IsId id.toList) (line : List Char) :
    readIds line (ids.map String.toList) = .ok ids := by
  induction ids with
  | nil => rfl
  | cons id ids ih =>
    have hid := (h id (by simp)).readId line
    rw [String.ofList_toList] at hid
    simp only [List.map_cons, readIds, hid, ih fun i hi => h i (by simp [hi]), Except.map]

/-- Ids with commas between them. -/
def commaSeparated (ids : List String) : List Char := (",".intercalate ids).toList

theorem commaSeparated_singleton (id : String) : commaSeparated [id] = id.toList := by
  simp [commaSeparated]

theorem commaSeparated_cons (id id' : String) (ids : List String) :
    commaSeparated (id :: id' :: ids) = id.toList ++ ',' :: commaSeparated (id' :: ids) := by
  simp [commaSeparated]

theorem splitCommas_append {cs : List Char} (h : ',' ∉ cs) (rest : List Char) :
    splitCommas (cs ++ ',' :: rest) = cs :: splitCommas rest := by
  induction cs with
  | nil => simp [splitCommas]
  | cons c cs ih =>
    have hc : c ≠ ',' := fun hc => h (by simp [hc])
    simp [splitCommas, hc, ih fun hm => h (List.mem_cons_of_mem c hm)]

theorem splitCommas_eq_singleton {cs : List Char} (h : ',' ∉ cs) : splitCommas cs = [cs] := by
  induction cs with
  | nil => rfl
  | cons c cs ih =>
    have hc : c ≠ ',' := fun hc => h (by simp [hc])
    simp [splitCommas, hc, ih fun hm => h (List.mem_cons_of_mem c hm)]

theorem splitCommas_commaSeparated {id : String} {ids : List String} (h : ∀ i ∈ id :: ids, IsId i.toList) :
    splitCommas (commaSeparated (id :: ids)) = (id :: ids).map String.toList := by
  induction ids generalizing id with
  | nil =>
    rw [commaSeparated_singleton, splitCommas_eq_singleton ((h id (by simp)).not_mem rfl)]
    rfl
  | cons id' ids ih =>
    rw [commaSeparated_cons, splitCommas_append ((h id (by simp)).not_mem rfl),
      ih fun i hi => h i (List.mem_cons_of_mem id hi)]
    rfl

theorem isLabel_commaSeparated {id : String} {ids : List String} (h : ∀ i ∈ id :: ids, IsId i.toList) :
    IsLabel (commaSeparated (id :: ids)) ∧ ':' ∉ commaSeparated (id :: ids) := by
  have hc : isLineBreak ',' = false := rfl
  induction ids generalizing id with
  | nil =>
    rw [commaSeparated_singleton]
    exact ⟨(h id (by simp)).toIsLabel, (h id (by simp)).not_mem rfl⟩
  | cons id' ids ih =>
    have hid := h id (by simp)
    obtain ⟨hl, hn⟩ := ih fun i hi => h i (List.mem_cons_of_mem id hi)
    rw [commaSeparated_cons]
    refine ⟨⟨by simp, hid.tight.append hl.tight hid.ne_nil hl.ne_nil [','], by simp [hid.oneLine, hl.oneLine, hc]⟩, ?_⟩
    simp [hn, hid.not_mem (c := ':') rfl]

theorem placementWord_eq {α : Type} {placement : Placement} {n : List Char → Matcher α} {cs : List Char} {a : α}
    (h : n placement.word.toList (' ' :: cs) = some a) :
    placementWord n (placement.words.toList ++ ' ' :: cs) = some a := by
  have ho : ∀ d ∈ ("of".toList ++ ' ' :: cs).head?, isBlank d = false := by rintro _ ⟨⟩; rfl
  have hof : ∀ w, n w (' ' :: cs) = some a →
      someBlanks (caseless "of".toList fun _ => n w) (' ' :: ("of".toList ++ ' ' :: cs)) = some a :=
    fun w hw => (someBlanks_cons rfl ho).trans hw
  unfold placementWord
  cases placement with
  | left =>
    have h1 : caseless "over".toList n (Placement.left.words.toList ++ ' ' :: cs) = none := rfl
    have h2 : caseless "left".toList (fun word => someBlanks (caseless "of".toList fun _ => n word))
        (Placement.left.words.toList ++ ' ' :: cs) = some a := hof _ h
    rw [h1, h2]
    rfl
  | right =>
    have h1 : caseless "over".toList n (Placement.right.words.toList ++ ' ' :: cs) = none := rfl
    have h2 : caseless "left".toList (fun word => someBlanks (caseless "of".toList fun _ => n word))
        (Placement.right.words.toList ++ ' ' :: cs) = none := rfl
    have h3 : caseless "right".toList (fun word => someBlanks (caseless "of".toList fun _ => n word))
        (Placement.right.words.toList ++ ' ' :: cs) = some a := hof _ h
    rw [h1, h2, h3]
    rfl
  | _ =>
    have h1 : caseless "over".toList n (Placement.over.words.toList ++ ' ' :: cs) = some a := h
    rw [h1]
    rfl

theorem placementOf_word (placement : Placement) : placementOf placement.word.toList = .ok placement := by
  cases placement <;> rfl

theorem words_head (placement : Placement) (cs : List Char) :
    ∀ c ∈ (placement.words.toList ++ cs).head?, isBlank c = false := by
  cases placement <;> (rintro _ ⟨⟩; rfl)

/-- A line that begins as a note does, read with what follows the placement. -/
theorem caseless_note {α : Type} {placement : Placement} {n : List Char → Matcher α} {cs : List Char} {a : α}
    (h : n placement.word.toList (' ' :: cs) = some a) :
    caseless "note".toList (fun _ => someBlanks (placementWord n))
      ("Note".toList ++ ' ' :: (placement.words.toList ++ ' ' :: cs)) = some a :=
  (someBlanks_cons (c := ' ') rfl (words_head placement _)).trans (placementWord_eq h)

theorem isSaid_tail {text : String} (h : IsSaid text.toList) : OneLine (textTail (some text)) := by
  have hc : isLineBreak ':' = false := rfl
  have hb : isLineBreak ' ' = false := rfl
  by_cases h0 : text = ""
  · simp [textTail, h0, hc]
  · rw [textTail_of_ne h0]
    simp [hc, hb, (h.escape_label (by simpa using h0)).oneLine]

theorem textTail_cons (text : String) : ∃ rest, textTail (some text) = ':' :: rest := by
  by_cases h0 : text = ""
  · exact ⟨[], by simp [textTail, h0]⟩
  · exact ⟨_, textTail_of_ne h0⟩

/-- The placement, the targets and the text of a note. -/
theorem noted_eq (placement : Placement) {targets : List Char} (hl : IsLabel targets) (hc : ':' ∉ targets)
    {t : String} (ht : OneLine (textTail (some t))) :
    noted ("Note".toList ++ ' ' :: (placement.words.toList ++ ' ' :: (targets ++ textTail (some t)))) =
      some (placement.word.toList, targets, (textTail (some t)).drop 1) := by
  have hh : ∀ c ∈ (targets ++ textTail (some t)).head?, isBlank c = false := by
    obtain ⟨c, cs, rfl⟩ := List.exists_cons_of_ne_nil hl.ne_nil
    exact hl.tight.1
  obtain ⟨rest, hrest⟩ := textTail_cons t
  rw [hrest] at ht hh ⊢
  have hafter : blanks (literal [':'] restOfLine) (':' :: rest) = some rest := by
    rw [blanks_of_head (by rintro _ ⟨⟩; rfl)]
    exact (literal_append [':'] _ _).trans (restOfLine_eq (oneLine_cons.1 ht).2)
  have htaken : someShortest beforeColon (blanks (literal [':'] restOfLine)) (targets ++ ':' :: rest) =
      some (targets, rest) := by
    refine someShortest_append _ hl.ne_nil ?_ hafter ?_
    · intro c hm
      have : c ≠ ':' := fun h => hc (h ▸ hm)
      simpa [beforeColon] using this
    · intro x y hxy _ hy
      refine blanks_literal_eq_none rfl (fun hm => hc (by simp [hxy, hm])) ?_ hy _
      intro c hm
      refine hl.tight.2 c ?_
      rw [hxy, List.getLast?_append, Option.mem_def.1 hm]
      rfl
  refine caseless_note ((someBlanks_cons rfl hh).trans ?_)
  rw [htaken]
  rfl

/-! ## Placements in any case -/

/-- No two placements have words that begin with the same letter. -/
theorem Placement.head?_injective : ∀ {placement placement' : Placement},
    placement.word.toList.head? = placement'.word.toList.head? → placement = placement' := by
  rintro (_ | _ | _) (_ | _ | _) h <;> first | rfl | exact absurd h (by decide)

/-- What passes for the word of a placement begins with its first letter. -/
theorem Placement.head?_word {placement : Placement} {word : List Char} (h : Passes placement.word.toList word) :
    word.head?.map fold = placement.word.toList.head? := by
  obtain ⟨letter, letters, hword, hi, hs⟩ : ∃ letter letters, placement.word.toList = letter :: letters ∧
      letter ≠ 'i' ∧ letter ≠ 's' := by
    cases placement <;> exact ⟨_, _, rfl, by decide, by decide⟩
  rw [hword] at h ⊢
  cases h with
  | cons hc =>
    rw [passesFor_eq hi hs] at hc
    exact congrArg some (beq_iff_eq.1 hc)

/-- The placement word of a note is told by the text that it stands at the start of. -/
theorem Placement.word_unique {placement placement' : Placement} {word word' cs : List Char}
    (hw : Passes placement.word.toList word) (hw' : Passes placement'.word.toList word') (hp : word <+: cs)
    (hp' : word' <+: cs) : word = word' := by
  have hhead : ∀ {p : Placement} {w : List Char}, Passes p.word.toList w → w <+: cs →
      p.word.toList.head? = cs.head?.map fold := by
    rintro p w hw ⟨rest, rfl⟩
    rw [← head?_word hw]
    cases w with
    | nil => cases hw' : p <;> (rw [hw'] at hw; cases hw)
    | cons c w => rfl
  obtain rfl := head?_injective ((hhead hw hp).trans (hhead hw' hp').symm)
  have hl := hw.length_eq
  have hl' := hw'.length_eq
  exact (List.prefix_of_prefix_length_le hp hp' (by omega)).eq_of_length (by omega)

theorem of_placementWord {α : Type} {n : List Char → Matcher α} {cs : List Char} {a : α} (h : placementWord n cs = some a) :
    ∃ placement word rest, Passes (Placement.word placement).toList word ∧ word <+: cs ∧ rest <:+ cs ∧
      n word rest = some a := by
  have hside : ∀ side : List Char,
      caseless side (fun word => someBlanks (caseless "of".toList fun _ => n word)) cs = some a →
        ∃ word rest, Passes side word ∧ word <+: cs ∧ rest <:+ cs ∧ n word rest = some a := by
    intro side hs
    obtain ⟨word, rest, rfl, hw, h⟩ := of_caseless hs
    obtain ⟨rest', hs', h⟩ := of_someBlanks h
    obtain ⟨of', rest'', rfl, -, h⟩ := of_caseless h
    exact ⟨word, rest'', hw, List.prefix_append word rest,
      ((List.suffix_append of' rest'').trans hs').trans (List.suffix_append word rest), h⟩
  unfold placementWord at h
  rcases Option.or_eq_some_iff.1 h with h | ⟨-, h⟩
  · rcases Option.or_eq_some_iff.1 h with h | ⟨-, h⟩
    · obtain ⟨word, rest, rfl, hw, h⟩ := of_caseless h
      exact ⟨.over, word, rest, hw, List.prefix_append word rest, List.suffix_append word rest, h⟩
    · exact ⟨.left, hside _ h⟩
  · exact ⟨.right, hside _ h⟩

theorem LineKind.ofWord_note (line rest : List Char) : LineKind.ofWord line "Note".toList rest =
    match notePlacement? line with
    | none => .ok .unknown
    | some placement => (placementOf placement).map LineKind.ofPlacement := rfl

namespace Note

variable {n : Note}

theorem Legible.targets_cons (h : n.Legible) : ∃ id ids, n.targets = id :: ids ∧ (n.placement ≠ .over → ids = []) := by
  have hv := h.valid
  unfold fault? at hv
  cases ht : n.targets with
  | nil => simp [ht] at hv
  | cons id ids =>
    refine ⟨id, ids, rfl, fun hp => ?_⟩
    simpa [ht, hp] using hv

theorem Legible.isLabel_targets (h : n.Legible) : IsLabel (commaSeparated n.targets) ∧ ':' ∉ commaSeparated n.targets := by
  obtain ⟨id, ids, ht, -⟩ := h.targets_cons
  exact ht ▸ isLabel_commaSeparated (ht ▸ h.targets)

/-- The line of a note. -/
theorem Legible.line_eq (h : n.Legible) : n.line =
    .ok (withText ("Note " ++ n.placement.words ++ " " ++ String.ofList (commaSeparated n.targets)) (some n.text)) := by
  obtain ⟨id, ids, ht, hids⟩ := h.targets_cons
  have hc : String.ofList (commaSeparated n.targets) = ",".intercalate n.targets := by
    rw [commaSeparated, String.ofList_toList]
  cases hp : n.placement with
  | left => simp [line, targetText?, hp, ht, hids (by simp [hp]), commaSeparated_singleton]
  | right => simp [line, targetText?, hp, ht, hids (by simp [hp]), commaSeparated_singleton]
  | _ => simp [line, targetText?, hp, hc]

theorem Legible.readIds_targets (h : n.Legible) (line : List Char) :
    readIds line (if n.placement == .over then splitCommas (commaSeparated n.targets) else [commaSeparated n.targets]) =
      .ok n.targets := by
  obtain ⟨id, ids, ht, hids⟩ := h.targets_cons
  have hall := ht ▸ h.targets
  by_cases hp : n.placement = .over
  · rw [if_pos (by simp [hp]), ht, splitCommas_commaSeparated hall, readIds_eq hall]
  · rw [hids hp] at ht hall
    rw [if_neg (by simp [hp]), ht, commaSeparated_singleton]
    exact readIds_eq hall line

/-- A note is read from its line. -/
theorem Legible.reads (h : n.Legible) : ∃ text, n.line = .ok text ∧ Reads text (.note { n with order := -1 }) := by
  obtain ⟨hlabel, hcolon⟩ := h.isLabel_targets
  refine ⟨_, h.line_eq, ?_⟩
  have hhead : ("Note " ++ n.placement.words ++ " " ++ String.ofList (commaSeparated n.targets)).toList =
      "Note".toList ++ ' ' :: (n.placement.words.toList ++ ' ' :: commaSeparated n.targets) := by simp
  have hN : Solid "Note".toList := by decide
  have hhl : IsLabel ("Note " ++ n.placement.words ++ " " ++ String.ofList (commaSeparated n.targets)).toList := by
    have hb : OneLine ("Note".toList ++ ' ' :: (n.placement.words.toList ++ [' '])) := by
      cases n.placement <;> decide
    have ht := hN.tight.append hlabel.tight (by decide) hlabel.ne_nil (' ' :: (n.placement.words.toList ++ [' ']))
    have ho := oneLine_append.2 ⟨hb, hlabel.oneLine⟩
    rw [hhead]
    simp only [List.cons_append, List.append_assoc, List.nil_append] at ht ho
    exact ⟨by simp, ht, ho⟩
  have hl := isLabel_withText (t := some n.text) hhl (by simpa using h.text)
  have ht : (withText ("Note " ++ n.placement.words ++ " " ++ String.ofList (commaSeparated n.targets))
      (some n.text)).toList = "Note".toList ++ ' ' :: (n.placement.words.toList ++ ' ' ::
        (commaSeparated n.targets ++ textTail (some n.text))) := by
    rw [withText_toList, hhead]
    simp
  have hh : ∀ c ∈ (commaSeparated n.targets ++ textTail (some n.text)).head?, isBlank c = false := by
    obtain ⟨c, cs, hc⟩ := List.exists_cons_of_ne_nil hlabel.ne_nil
    have := hlabel.tight.1
    rw [hc] at this ⊢
    exact this
  refine .of_kind (.ofPlacement n.placement) ⟨hl.tight, hl.oneLine, isSignificant_of_head hl.ne_nil ?_⟩ ?_ ?_
  · rw [ht]
    simp
  · rw [kind_of_first ht hN (by decide), LineKind.ofWord_note]
    have : notePlacement? (withText ("Note " ++ n.placement.words ++ " " ++
        String.ofList (commaSeparated n.targets)) (some n.text)).toList = some n.placement.word.toList := by
      rw [ht]
      refine caseless_note ((someBlanks_cons rfl hh).trans (if_pos ?_))
      obtain ⟨c, cs, hc⟩ := List.exists_cons_of_ne_nil hlabel.ne_nil
      rw [hc] at hh ⊢
      simpa using hh c rfl
    simp only [this, placementOf_word, Except.map]
  · have hnoted := noted_eq n.placement hlabel hcolon (isSaid_tail h.text)
    have hkind : Statement.ofKind (.ofPlacement n.placement) = fun line => readNote line.toList := by
      cases n.placement <;> rfl
    simp only [hkind, readNote, ht, hnoted, placementOf_word, h.readIds_targets, textAfterColon_tail h.text, Except.map]

end Note

end Lifeline
