import Mathlib.Data.List.Find
import Mathlib.Data.List.TakeWhile
import Lifeline.Proofs.Headings
/-!
# Colours in front of a label

A colour is the first token of a heading that begins with it. So a box whose colour is one
keeps colour and label when its heading is read (`Box.readHeading_eq`).
-/

namespace Lifeline

open Text

namespace Color

/-! ## Names -/

/-- No name of a colour holds a blank or a parenthesis. -/
theorem names_plain : (names.all fun n => n.toList.all fun c => !isBlank c && c != '(') = true := by decide +kernel

theorem fold_eq_self {c : Char} (h : isBlank c = true ∨ c = '(') : fold c = c := by
  unfold fold
  split
  · rename_i hc
    rw [Bool.and_eq_true, decide_eq_true_eq, decide_eq_true_eq] at hc
    have hlow : 65 ≤ c.toNat := hc.1
    have hhigh : c.toNat ≤ 90 := hc.2
    rcases h with h | rfl
    · simp only [isBlank, Bool.or_eq_true, Bool.and_eq_true, decide_eq_true_eq, beq_iff_eq] at h
      omega
    · exact absurd hlow (by decide)
  · split
    · rename_i hc
      obtain rfl := beq_iff_eq.1 hc
      rcases h with h | h <;> exact absurd h (by decide)
    · rfl

theorem plain_of_isName {cs : List Char} (h : isName cs = true) : Solid cs ∧ '(' ∉ cs := by
  have hmem : String.ofList (foldWord cs) ∈ names := by simpa [isName] using h
  have hall := List.all_eq_true.1 names_plain _ hmem
  rw [String.toList_ofList, List.all_eq_true] at hall
  have hc : ∀ c ∈ cs, ¬(isBlank c = true ∨ c = '(') := by
    intro c hc hbad
    have hf := hall (fold c) (List.mem_map_of_mem hc)
    rw [fold_eq_self hbad] at hf
    rcases hbad with hb | rfl
    · simp [hb] at hf
    · simp at hf
  exact ⟨fun c hm => by simpa using fun hb => hc c hm (.inl hb), fun hm => hc _ hm (.inr rfl)⟩

/-! ## Tokens -/

/-- What may follow a colour: nothing, or a blank. -/
def Clear (rest : List Char) : Prop := ∀ c ∈ rest.head?, isBlank c = true

theorem takeWhile_clear {p : Char → Bool} {cs rest : List Char} (h : ∀ c ∈ cs, p c = true) (hr : Clear rest)
    (hp : ∀ c, isBlank c = true → p c = false) :
    (cs ++ rest).takeWhile p = cs ∧ (cs ++ rest).dropWhile p = rest := by
  rw [List.takeWhile_append_of_pos h, List.dropWhile_append_of_pos h]
  cases rest with
  | nil => simp
  | cons c rest => simp [hp c (hr c rfl)]

theorem calls_shape {opening : List Char} (h : opening ∈ calls) :
    opening.length ≤ 5 ∧ Solid opening ∧ '(' ∈ opening ∧ ')' ∉ opening ∧ opening.head? ≠ some '#' := by
  revert opening
  decide

/-- What a call takes and what it leaves make up the text. -/
theorem call?_eq {cs token rest : List Char} (h : call? cs = some (token, rest)) : token ++ rest = cs ∧
    ∃ opening, (calls.find? fun opening => opening.isPrefixOf cs) = some opening ∧
      ∃ inner, ')' ∉ inner ∧ token = opening ++ (inner ++ [')']) := by
  unfold call? at h
  split at h
  · cases h
  · rename_i opening hf
    obtain ⟨t, rfl⟩ : opening <+: cs := by simpa using List.find?_some hf
    simp only [List.drop_left] at h
    split at h
    · cases h
    · rename_i c rest' hd
      simp only [Option.some.injEq, Prod.mk.injEq] at h
      obtain ⟨rfl, rfl⟩ := h
      have hc : c = ')' := by
        simpa using head?_dropWhile (p := fun c => c != ')') (hd ▸ rfl : c ∈ (List.dropWhile _ t).head?)
      subst hc
      have hsplit := List.takeWhile_append_dropWhile (p := fun c => c != ')') (l := t)
      rw [hd] at hsplit
      refine ⟨by simp [hsplit], opening, hf, t.takeWhile fun c => c != ')', fun hm => ?_, by simp⟩
      simpa using List.mem_takeWhile_imp hm

theorem calls_find? {cs rest : List Char} (h : 5 ≤ cs.length) :
    (calls.find? fun opening => opening.isPrefixOf (cs ++ rest)) = calls.find? fun opening => opening.isPrefixOf cs := by
  refine List.find?_congr fun opening ho => ?_
  rw [Bool.eq_iff_iff, List.isPrefixOf_iff_prefix, List.isPrefixOf_iff_prefix]
  constructor
  · exact fun hp => List.prefix_of_prefix_length_le hp (List.prefix_append cs rest) ((calls_shape ho).1.trans h)
  · exact fun hp => hp.trans (List.prefix_append cs rest)

theorem call?_append {cs rest : List Char} (h : call? cs = some (cs, [])) : call? (cs ++ rest) = some (cs, rest) := by
  obtain ⟨-, opening, hf, inner, hin, he⟩ := call?_eq h
  have hlen : 5 ≤ cs.length := by
    have hmem := List.mem_of_find?_eq_some hf
    have : ∀ opening ∈ calls, 4 ≤ opening.length := by decide
    have := this opening hmem
    simp [he]
    omega
  unfold call?
  rw [calls_find? hlen, hf]
  have hdrop : (cs ++ rest).drop opening.length = inner ++ ')' :: rest := by simp [he]
  have hne : ∀ c ∈ inner, (c != ')') = true := fun c hc => by
    simpa using fun hcc : c = ')' => hin (hcc ▸ hc)
  simp only [hdrop]
  rw [List.takeWhile_append_of_pos hne, List.dropWhile_append_of_pos hne]
  simp [he]

/-- What the digits take and what they leave make up the text. -/
theorem hex?_eq {cs token rest : List Char} (h : hex? cs = some (token, rest)) :
    token ++ rest = cs ∧ cs.head? = some '#' := by
  unfold hex? at h
  split at h
  · simp only [Option.ite_none_right_eq_some, Option.some.injEq, Prod.mk.injEq] at h
    obtain ⟨-, rfl, rfl⟩ := h
    simp
  · cases h

theorem isHexDigit_of_isBlank {c : Char} (hb : isBlank c = true) : isHexDigit c = false := by
  rw [Bool.eq_false_iff]
  intro hx
  simp only [isHexDigit, Char.isDigit, Bool.or_eq_true, Bool.and_eq_true, decide_eq_true_eq] at hx
  have hx : (48 ≤ c.toNat ∧ c.toNat ≤ 57 ∨ 97 ≤ c.toNat ∧ c.toNat ≤ 102) ∨ 65 ≤ c.toNat ∧ c.toNat ≤ 70 := hx
  simp only [isBlank, Bool.or_eq_true, Bool.and_eq_true, decide_eq_true_eq, beq_iff_eq] at hb
  omega

theorem hex?_append {cs rest : List Char} (h : hex? cs = some (cs, [])) (hr : Clear rest) :
    hex? (cs ++ rest) = some (cs, rest) := by
  cases cs with
  | nil => cases h
  | cons c cs =>
    obtain rfl : c = '#' := by simpa using (hex?_eq h).2
    simp only [hex?, Option.ite_none_right_eq_some, Option.some.injEq, Prod.mk.injEq, List.cons.injEq, true_and] at h
    obtain ⟨hlen, htake, hdrop⟩ := h
    have hall := List.dropWhile_eq_nil_iff.1 hdrop
    obtain ⟨ht, hd⟩ := takeWhile_clear hall hr fun c => isHexDigit_of_isBlank
    have hclear : rest.head?.all isBlank = true := by
      cases rest with
      | nil => rfl
      | cons c rest => exact hr c rfl
    rw [htake] at hlen
    simp only [Bool.and_eq_true] at hlen
    simp [hex?, ht, hd, hlen.1, hclear]

theorem call?_none {cs rest : List Char} (h : ∀ opening ∈ calls, ¬opening <+: cs ++ rest) : call? (cs ++ rest) = none := by
  have hf : (calls.find? fun opening => opening.isPrefixOf (cs ++ rest)) = none := by
    simpa using h
  unfold call?
  rw [hf]

/-- A written colour stays one in front of a blank: a call keeps its parenthesis, digits stop at
the blank. -/
theorem written?_append {cs token rest : List Char} (h : written? cs = some (token, [])) (hr : Clear rest) :
    written? (cs ++ rest) = some (cs, rest) := by
  cases hcall : call? cs with
  | some found =>
    obtain rfl : found = (token, []) := by simpa [written?, hcall] using h
    obtain rfl : token = cs := by simpa using (call?_eq hcall).1
    simp [written?, call?_append hcall]
  | none =>
    have hhex : hex? cs = some (token, []) := by simpa [written?, hcall] using h
    obtain ⟨heq, hfirst⟩ := hex?_eq hhex
    obtain rfl : token = cs := by simpa using heq
    have hne : token ≠ [] := fun hnil => by simp [hnil] at hfirst
    have hnone : call? (token ++ rest) = none := by
      refine call?_none fun opening ho hp => (calls_shape ho).2.2.2.2 ?_
      obtain ⟨c, more, rfl⟩ := List.exists_cons_of_ne_nil (List.ne_nil_of_mem (calls_shape ho).2.2.1)
      obtain ⟨tail, ht⟩ := hp
      rw [← hfirst, ← List.head?_append_of_ne_nil token hne, ← ht]
      rfl
    simp [written?, hnone, hex?_append hhex hr]

/-- A text without a parenthesis, or a hash in front, is no written colour in front of a blank. -/
theorem written?_eq_none {cs rest : List Char} (hparen : '(' ∉ cs) (hhash : (cs ++ rest).head? ≠ some '#')
    (hr : Clear rest) : written? (cs ++ rest) = none := by
  have hcall : call? (cs ++ rest) = none := by
    refine call?_none fun opening ho hp => ?_
    obtain ⟨-, hso, hpo, -⟩ := calls_shape ho
    rcases List.prefix_or_prefix_of_prefix hp (List.prefix_append cs rest) with hle | ⟨tail, rfl⟩
    · exact hparen (hle.subset hpo)
    · obtain ⟨c, tail, rfl⟩ : ∃ c t, tail = c :: t := List.exists_cons_of_ne_nil fun ht => by
        simp [ht, hparen] at hpo
      rw [List.prefix_append_right_inj] at hp
      obtain ⟨more, rfl⟩ := hp
      have hblank := hr c rfl
      simp [hso c (by simp)] at hblank
  have hhex : hex? (cs ++ rest) = none := by
    cases hx : hex? (cs ++ rest) with
    | none => rfl
    | some found => exact absurd (hex?_eq hx).2 hhash
  rw [written?, hcall, hhex, Option.or_none]

/-- A colour is the token that begins a text with it. -/
theorem leadingToken_append {cs rest : List Char} (h : isColor cs = true) (hr : Clear rest) :
    leadingToken (cs ++ rest) = cs := by
  unfold isColor at h
  split at h
  next first last hfirst hlast =>
    split at h
    · obtain ⟨⟨token, left⟩, hw, hleft⟩ := (Option.any_eq_true ..).1 h
      obtain rfl : left = [] := by simpa using hleft
      simp [leadingToken, written?_append hw hr]
    · next hwritten =>
      obtain ⟨hsolid, hparen⟩ := plain_of_isName h
      have hne : cs ≠ [] := List.ne_nil_of_mem (List.mem_of_mem_head? hfirst)
      have hhash : (cs ++ rest).head? ≠ some '#' := by
        rw [List.head?_append_of_ne_nil cs hne, hfirst]
        simp_all
      simp only [leadingToken, written?_eq_none hparen hhash hr]
      exact (takeWhile_clear (fun c hc => by simp [hsolid c hc]) hr fun c hc => by simp [hc]).1
  next => cases h

/-! ## Headings -/

theorem trim_wordTail {label : Option String} (h : ∀ l ∈ label, IsTrimmed l.toList) :
    trim (wordTail label) = (label.map String.toList).getD [] := by
  cases label with
  | none => rfl
  | some l =>
    have ht := (h l rfl).tight.trim_eq
    have hb : isBlank ' ' = true := rfl
    simpa [wordTail, trim, trimStart, hb] using ht

theorem startsWithColor_getD {label : Option String} (h : ∀ l ∈ label, IsTrimmed l.toList) :
    startsWithColor ((label.map String.toList).getD []) = labelStartsWithColor label := by
  cases label with
  | none => rfl
  | some l => simp [labelStartsWithColor, (h l rfl).tight.trim_eq]

/-- A heading that begins with a colour is split after it, unless the colour is only there
to keep the label whole. -/
theorem splitHeading_color {color : String} (hcolor : isColor color.toList = true) {label : Option String}
    (hlabel : ∀ l ∈ label, IsTrimmed l.toList) (htight : Tight (color.toList ++ wordTail label)) :
    splitHeading (color.toList ++ wordTail label) =
      if foldWord color.toList = transparent.toList ∧ labelStartsWithColor label = true then { label }
      else { color := some color, label } := by
  have hne : color.toList ≠ [] := fun h => by simp [h, isColor] at hcolor
  have hclear : Clear (wordTail label) := by
    cases label with
    | none => simp [Clear, wordTail]
    | some l =>
      have hb : isBlank ' ' = true := rfl
      simp [Clear, wordTail, hb]
  simp [splitHeading, htight.trim_eq, hne, leadingToken_append hcolor hclear, hcolor, trim_wordTail hlabel,
    startsWithColor_getD hlabel, label?_getD hlabel]

end Color

/-- A box whose colour is one, and is not the one that only keeps a label whole. -/
def Box.IsPlain (b : Box) : Prop :=
  ∀ c ∈ b.color, Color.isColor c.toList = true ∧
    ¬(foldWord c.toList = Color.transparent.toList ∧ Color.labelStartsWithColor b.label = true)

open Color in
/-- A colour that is written is read, unless it is only there to keep the label whole. -/
theorem Box.Trimmed.readHeading_of_shown {b : Box} (h : b.Trimmed) {c : String} (hshown : b.shownColor = some c)
    (hc : isColor c.toList = true) :
    b.readHeading = if foldWord c.toList = transparent.toList ∧ labelStartsWithColor b.label = true then { label := b.label }
      else { color := some c, label := b.label } := by
  have htext : ((headingOf (some c) b.label).map String.toList).getD [] = c.toList ++ wordTail b.label := by
    cases b.label <;> simp [headingOf, wordTail]
  have htight : Tight (c.toList ++ wordTail b.label) := by
    have hheading := h.heading
    rw [hshown] at hheading
    cases hl : b.label with
    | none => simpa [headingOf, wordTail, hl] using (hheading c (by simp [headingOf, hl])).tight
    | some l => simpa [wordTail] using (hheading (c ++ " " ++ l) (by simp [headingOf, hl])).tight
  rw [Box.readHeading, hshown, htext, splitHeading_color hc h.label htight]

open Color in
/-- Colour and label of a box are read from its line as they are. -/
theorem Box.readHeading_eq {b : Box} (h : b.Trimmed) (hp : b.IsPlain) :
    b.readHeading = { color := b.color, label := b.label } := by
  cases hc : b.color with
  | some c =>
    obtain ⟨hcolor, hkept⟩ := hp c hc
    rw [h.readHeading_of_shown (by simp [shownColor, hc]) hcolor, if_neg hkept]
  | none =>
    cases hl : labelStartsWithColor b.label with
    | true =>
      have hshown : b.shownColor = some transparent := by simp [shownColor, hc, hl]
      rw [h.readHeading_of_shown hshown (by decide +kernel), if_pos ⟨by decide, hl⟩]
    | false =>
      have hshown : b.shownColor = none := by simp [shownColor, hc, hl]
      unfold readHeading
      rw [hshown]
      cases hb : b.label with
      | none => rfl
      | some l =>
        have hlabel := h.label l hb
        rw [hb] at hl
        have hstart : isColor (leadingToken l.toList) = false := by
          simpa [labelStartsWithColor, hlabel.tight.trim_eq, startsWithColor] using hl
        simp [headingOf, splitHeading, hlabel.tight.trim_eq, ne_empty hlabel, hstart]

end Lifeline
