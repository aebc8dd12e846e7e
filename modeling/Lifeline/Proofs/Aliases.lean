import Lifeline.Proofs.Names
/-!
# Labels in a declaration

In a declaration a label stands behind the id and the word `as`. The id that is read goes
up to the first place where that can be: nothing inside it looks like the beginning of a
label, whether the line gives a label or not. An id from another line can hold the word
`as` between blanks (`holdsAs`), and then looks like a shorter id with a label.
-/

namespace Lifeline

open Text Text.Pattern

/-- Whether a text begins with the word `as` and a blank. -/
def asAhead : List Char → Bool
  | 'a' :: 's' :: c :: _ => isBlank c
  | _ => false

/-- Whether the word `as` stands between blanks somewhere in a text. -/
def holdsAs : List Char → Bool
  | [] => false
  | c :: cs => (isBlank c && asAhead cs) || holdsAs cs

theorem asAhead_iff {cs : List Char} : asAhead cs = true ↔ ∃ c rest, cs = 'a' :: 's' :: c :: rest ∧ isBlank c = true := by
  unfold asAhead
  split
  · simp
  · rename_i hne
    simp only [Bool.false_eq_true, false_iff, not_exists, not_and]
    rintro c rest rfl
    exact absurd rfl (hne c rest)

theorem holdsAs_iff {cs : List Char} : holdsAs cs = true ↔
    ∃ front b c rest, cs = front ++ b :: 'a' :: 's' :: c :: rest ∧ isBlank b = true ∧ isBlank c = true := by
  induction cs with
  | nil => simp [holdsAs]
  | cons d cs ih =>
    rw [holdsAs, Bool.or_eq_true, Bool.and_eq_true, ih, asAhead_iff]
    constructor
    · rintro (⟨hd, c, rest, rfl, hc⟩ | ⟨front, b, c, rest, rfl, hb, hc⟩)
      · exact ⟨[], d, c, rest, rfl, hd, hc⟩
      · exact ⟨d :: front, b, c, rest, rfl, hb, hc⟩
    · rintro ⟨front, b, c, rest, he, hb, hc⟩
      cases front with
      | nil =>
        cases he
        exact .inl ⟨hb, c, rest, rfl, hc⟩
      | cons d front =>
        cases he
        exact .inr ⟨front, b, c, rest, rfl, hb, hc⟩

/-- What a label looks like from behind the id on: blanks, the word `as`, a blank and at
least one character. -/
def LooksAliased (cs : List Char) : Prop := ∃ blanks c label,
  cs = blanks ++ 'a' :: 's' :: c :: label ∧ blanks ≠ [] ∧ (∀ b ∈ blanks, isBlank b = true) ∧ isBlank c = true ∧ label ≠ []

theorem aliasOrEnd_isSome {cs : List Char} (h : LooksAliased cs) (ho : OneLine cs) : (aliasOrEnd cs).isSome = true := by
  obtain ⟨blanks, c, label, rfl, hne, hb, hc, hl⟩ := h
  obtain ⟨-, -, -, -, hone⟩ : OneLine blanks ∧ _ ∧ _ ∧ _ ∧ OneLine label := by simpa using ho
  have hlabel : (someBlanks someRestOfLine (c :: label)).isSome = true := by
    rw [someBlanks, if_pos hc]
    exact blanks_isSome (by rw [someRestOfLine_eq hone hl]; rfl)
  obtain ⟨b, blanks, rfl⟩ := List.exists_cons_of_ne_nil hne
  have hdrop : (blanks ++ 'a' :: 's' :: c :: label).dropWhile isBlank = 'a' :: 's' :: c :: label := by
    rw [List.dropWhile_append_of_pos fun d hd => hb d (List.mem_cons_of_mem b hd)]
    rfl
  have htaken : someBlanks (literal "as".toList (someBlanks someRestOfLine)) (b :: blanks ++ 'a' :: 's' :: c :: label) =
      someBlanks someRestOfLine (c :: label) := by
    rw [List.cons_append, someBlanks, if_pos (hb b List.mem_cons_self), show "as".toList = ['a', 's'] from rfl,
      blanks_literal rfl, hdrop]
    exact literal_append ['a', 's'] _ _
  obtain ⟨x, hx⟩ := Option.isSome_iff_exists.1 hlabel
  rw [aliasOrEnd, htaken, hx]
  rfl

theorem looksAliased_of_aliasOrEnd {cs : List Char} (h : (aliasOrEnd cs).isSome = true) (ho : OneLine cs) (h0 : cs ≠ []) :
    LooksAliased cs := by
  obtain ⟨b, cs, rfl⟩ := List.exists_cons_of_ne_nil h0
  unfold aliasOrEnd at h
  rw [endOfLine_eq_none ho h0] at h
  split at h
  · rename_i x hx
    rw [someBlanks] at hx
    split at hx
    · rename_i hb
      rw [show "as".toList = ['a', 's'] from rfl, blanks_literal rfl] at hx
      obtain ⟨rest, hrest, hx⟩ := of_literal hx
      cases rest with
      | nil => cases hx
      | cons c label =>
        rw [someBlanks] at hx
        split at hx
        · rename_i hc
          refine ⟨b :: cs.takeWhile isBlank, c, label, ?_, by simp, ?_, hc, ?_⟩
          · rw [List.cons_append, show 'a' :: 's' :: c :: label = ['a', 's'] ++ c :: label from rfl, ← hrest,
              List.takeWhile_append_dropWhile]
          · intro d hd
            rcases List.mem_cons.1 hd with rfl | hd
            · exact hb
            · exact List.all_eq_true.1 List.all_takeWhile d hd
          · rintro rfl
            cases hx
        · cases hx
    · cases hx
  · cases h

/-! ## What the reader takes for an id -/

theorem aliasTail_eq_cons {label : Option String} {c : Char} {rest : List Char} (h : aliasTail label = c :: rest) :
    c = ' ' ∧ label.isSome = true := by
  cases label with
  | none => cases h
  | some l =>
    cases h
    exact ⟨rfl, rfl⟩

/-- What looks like a label and begins inside a tight text has its word there, and a blank
behind it. -/
theorem LooksAliased.word_inside {y : List Char} {label : Option String} (h : LooksAliased (y ++ aliasTail label))
    (hy : y ≠ []) (hlast : ∀ c ∈ y.getLast?, isBlank c = false) : ∃ blanks rest,
      y = blanks ++ 'a' :: 's' :: rest ∧ blanks ≠ [] ∧ (∀ b ∈ blanks, isBlank b = true) ∧
      ((rest = [] ∧ label.isSome = true) ∨ ∃ c more, rest = c :: more ∧ isBlank c = true ∧ more ≠ []) := by
  obtain ⟨blanks, c, tail, he, hne, hb, hc, -⟩ := h
  rcases List.append_eq_append_iff.1 he with ⟨inner, rfl, -⟩ | ⟨inner, rfl, htail⟩
  · -- The text would be all blanks.
    obtain ⟨d, hd⟩ := Option.ne_none_iff_exists'.1 fun hnone => hy (List.getLast?_eq_none_iff.1 hnone)
    have hblank := hb d (List.mem_append_left inner (List.mem_of_getLast? hd))
    rw [hlast d hd] at hblank
    cases hblank
  · match inner, htail with
    | [], htail => exact absurd (aliasTail_eq_cons htail.symm).1 (by decide)
    | [d], htail => exact absurd (aliasTail_eq_cons (List.cons.inj htail).2.symm).1 (by decide)
    | d :: e :: rest, htail =>
      simp only [List.cons_append, List.cons.injEq] at htail
      obtain ⟨rfl, rfl, htail⟩ := htail
      refine ⟨blanks, rest, rfl, hne, hb, ?_⟩
      cases rest with
      | nil => exact .inl ⟨rfl, (aliasTail_eq_cons htail.symm).2⟩
      | cons c' more =>
        obtain ⟨rfl, -⟩ := List.cons.inj htail
        refine .inr ⟨c, more, rfl, hc, ?_⟩
        rintro rfl
        rw [hlast c (by simp)] at hc
        cases hc

/-- Behind the word of a label, what looks like a label is as good as the label itself. -/
theorem LooksAliased.as_label {rest : List Char} (h : LooksAliased rest) {trail : List Char}
    (ht : ∀ c ∈ trail, isBlank c = true) : ∃ c label, trail ++ rest = c :: label ∧ isBlank c = true ∧ label ≠ [] := by
  obtain ⟨blanks, c, label, rfl, hne, hb, -, -⟩ := h
  obtain ⟨d, more, hd⟩ := List.exists_cons_of_ne_nil (l := trail ++ blanks) (by simp [hne])
  refine ⟨d, more ++ 'a' :: 's' :: c :: label, by rw [← List.append_assoc, hd]; rfl, ?_, by simp⟩
  have hmem : d ∈ trail ++ blanks := hd ▸ List.mem_cons_self
  exact (List.mem_append.1 hmem).elim (ht d) (hb d)

/-- An id that goes up to the first place where a label can begin holds none, without the
blanks around it and whatever the label is. -/
theorem Unaliased.trimmed {id rest : List Char} (h : Unaliased id rest) (ho : OneLine (id ++ rest))
    {label : Option (List Char)} (hrest : aliasOrEnd rest = some label) {shown : Option String}
    (hs : shown.isSome = label.isSome) (hl : OneLine (aliasTail shown)) : Unaliased (trim id) (aliasTail shown) := by
  intro x y hid hx hy
  by_contra hnone
  obtain ⟨lead, trail, he, ht⟩ := trim_between id
  obtain ⟨hid', hrest'⟩ := oneLine_append.1 ho
  have hlast : ∀ c ∈ y.getLast?, isBlank c = false := fun c hc => by
    refine (tight_trim id).2 c ?_
    rw [hid, List.getLast?_append, Option.mem_def.1 hc]
    rfl
  have hlooks : LooksAliased (y ++ aliasTail shown) := by
    have hone : OneLine (x ++ y) := hid ▸ hid'.trim
    exact looksAliased_of_aliasOrEnd (Option.isSome_iff_ne_none.2 hnone) (oneLine_append.2 ⟨(oneLine_append.1 hone).2, hl⟩)
      (by simp [hy])
  -- The same word stands in the id as it was, and something that can be a label behind it.
  obtain ⟨blanks, more, rfl, hne, hb, hmore⟩ := hlooks.word_inside hy hlast
  have hlabel : ∃ c l, more ++ (trail ++ rest) = c :: l ∧ isBlank c = true ∧ l ≠ [] := by
    rcases hmore with ⟨rfl, hsome⟩ | ⟨c, m, rfl, hc, hm⟩
    · obtain ⟨l, rfl⟩ := Option.isSome_iff_exists.1 (hs ▸ hsome)
      have hr0 : rest ≠ [] := by
        rintro rfl
        cases hrest
      exact (looksAliased_of_aliasOrEnd (by rw [hrest]; rfl) hrest' hr0).as_label ht
    · exact ⟨c, m ++ (trail ++ rest), rfl, hc, by simp [hm]⟩
  obtain ⟨c, l, hcl, hc, hl0⟩ := hlabel
  have heq : (blanks ++ 'a' :: 's' :: more ++ trail) ++ rest = blanks ++ 'a' :: 's' :: c :: l := by
    rw [← hcl]
    simp
  have hwhole : id = (lead ++ x) ++ (blanks ++ 'a' :: 's' :: more ++ trail) := by
    rw [he, hid]
    simp
  have hsome := aliasOrEnd_isSome ⟨blanks, c, l, heq, hne, hb, hc, hl0⟩ (by
    rw [hwhole, List.append_assoc] at ho
    exact (oneLine_append.1 ho).2)
  rw [h _ _ hwhole (by simp [hx]) (by simp)] at hsome
  cases hsome

/-! ## Ids that hold no label -/

/-- What holds the word `as` between blanks has something that looks like a label inside. -/
theorem Unaliased.holdsAs_eq_false {id tail : List Char} (h : Unaliased id tail) (ht : Tight id) (ho : OneLine (id ++ tail)) :
    holdsAs id = false := by
  by_contra hholds
  obtain ⟨front, b, c, rest, rfl, hb, hc⟩ := holdsAs_iff.1 (by simpa using hholds)
  have hfront : front ≠ [] := by
    rintro rfl
    rw [ht.1 b (by simp)] at hb
    cases hb
  have hrest : rest ≠ [] := by
    rintro rfl
    rw [ht.2 c (by simp)] at hc
    cases hc
  have hsome := aliasOrEnd_isSome ⟨[b], c, rest ++ tail, rfl, by simp, by simpa using hb, hc, by simp [hrest]⟩ (by
    rw [List.append_assoc] at ho
    exact (oneLine_append.1 ho).2)
  rw [show ([b] ++ 'a' :: 's' :: c :: (rest ++ tail)) = (b :: 'a' :: 's' :: c :: rest) ++ tail from rfl,
    h front _ rfl hfront (by simp)] at hsome
  cases hsome

theorem unaliased_of_holdsAs {id : List Char} (h : holdsAs id = false) (ho : OneLine id) : Unaliased id (aliasTail none) := by
  intro x y hid _ hy
  by_contra hnone
  rw [show aliasTail none = [] from rfl, List.append_nil] at hnone
  obtain ⟨blanks, c, label, rfl, hne, hb, hc, -⟩ := looksAliased_of_aliasOrEnd (Option.isSome_iff_ne_none.2 hnone)
    (oneLine_append.1 (hid ▸ ho)).2 hy
  -- The last of the blanks stands before the word.
  obtain ⟨front, b, rfl⟩ := List.eq_nil_or_concat blanks |>.resolve_left hne
  have hholds : holdsAs id = true :=
    holdsAs_iff.2 ⟨x ++ front, b, c, label, by simp [hid], hb b (by simp), hc⟩
  rw [h] at hholds
  cases hholds

end Lifeline
