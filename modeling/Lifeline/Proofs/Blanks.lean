import Lifeline.Text.Lines
/-!
# Trimmed texts

A text is tight if no blank stands at either end. Trimming makes a text tight and
leaves a tight one alone, and a tight text keeps its words.
-/

namespace Lifeline.Text

/-- No blank stands at either end of the text. -/
def Tight (cs : List Char) : Prop :=
  (∀ c ∈ cs.head?, isBlank c = false) ∧ ∀ c ∈ cs.getLast?, isBlank c = false

/-- No line break stands in the text. -/
def OneLine (cs : List Char) : Prop := ∀ c ∈ cs, isLineBreak c = false

/-- No blank stands in the text. -/
def Solid (cs : List Char) : Prop := ∀ c ∈ cs, isBlank c = false

-- Both run along the text: a search over all characters would be found first.
instance (cs : List Char) : Decidable (OneLine cs) := List.decidableBAll (fun c => isLineBreak c = false) cs

instance (cs : List Char) : Decidable (Solid cs) := List.decidableBAll (fun c => isBlank c = false) cs

theorem isBlank_of_isLineBreak {c : Char} (h : isLineBreak c = true) : isBlank c = true := by
  simp only [isLineBreak, isBlank, Bool.or_eq_true, Bool.and_eq_true, decide_eq_true_eq, beq_iff_eq] at h ⊢
  omega

theorem Solid.oneLine {cs : List Char} (h : Solid cs) : OneLine cs := by
  intro c hc
  cases hb : isLineBreak c with
  | false => rfl
  | true => exact absurd (isBlank_of_isLineBreak hb) (by simp [h c hc])

theorem Solid.tight {cs : List Char} (h : Solid cs) : Tight cs :=
  ⟨fun c hc => h c (List.mem_of_mem_head? hc), fun c hc => h c (List.mem_of_getLast? hc)⟩

@[simp] theorem oneLine_nil : OneLine [] := by simp [OneLine]

@[simp] theorem oneLine_append {xs ys : List Char} : OneLine (xs ++ ys) ↔ OneLine xs ∧ OneLine ys := by
  simp [OneLine, or_imp, forall_and]

@[simp] theorem oneLine_cons {c : Char} {cs : List Char} :
    OneLine (c :: cs) ↔ isLineBreak c = false ∧ OneLine cs := by
  simp [OneLine]

@[simp] theorem tight_nil : Tight [] := by simp [Tight]

theorem tight_singleton {c : Char} (h : isBlank c = false) : Tight [c] := by simpa [Tight] using h

/-- A text that begins and ends as tight texts do is tight. -/
theorem Tight.append {xs ys : List Char} (hx : Tight xs) (hy : Tight ys) (hx0 : xs ≠ []) (hy0 : ys ≠ [])
    (m : List Char) : Tight (xs ++ (m ++ ys)) := by
  obtain ⟨x, xs, rfl⟩ := List.exists_cons_of_ne_nil hx0
  have hl : (x :: xs ++ (m ++ ys)).getLast? = ys.getLast? := by
    rw [← List.append_assoc, List.getLast?_append]
    cases hys : ys.getLast? with
    | none => exact absurd (List.getLast?_eq_none_iff.1 hys) hy0
    | some y => rfl
  exact ⟨hx.1, hl ▸ hy.2⟩

/-! ## Trimming -/

theorem dropWhile_of_head {p : Char → Bool} {cs : List Char} (h : ∀ c ∈ cs.head?, p c = false) :
    cs.dropWhile p = cs := by
  cases cs with
  | nil => rfl
  | cons c cs => simp [h c (by simp)]

theorem Tight.trim_eq {cs : List Char} (h : Tight cs) : trim cs = cs := by
  unfold trim trimEnd trimStart
  rw [dropWhile_of_head h.1, dropWhile_of_head (by simpa using h.2), List.reverse_reverse]

theorem head?_dropWhile {p : Char → Bool} {cs : List Char} {c : Char} (h : c ∈ (cs.dropWhile p).head?) :
    p c = false := by
  have := List.head?_dropWhile_not p cs
  rw [Option.mem_def.1 h] at this
  simpa using this

theorem tight_trim (cs : List Char) : Tight (trim cs) := by
  unfold trim trimEnd trimStart
  constructor
  · intro c hc
    have hsuf : ((cs.dropWhile isBlank).reverse.dropWhile isBlank).reverse <+: cs.dropWhile isBlank := by
      have := (List.dropWhile_suffix isBlank (l := (cs.dropWhile isBlank).reverse)).reverse
      rwa [List.reverse_reverse] at this
    obtain ⟨t, ht⟩ := hsuf
    cases hr : ((cs.dropWhile isBlank).reverse.dropWhile isBlank).reverse with
    | nil => simp [hr] at hc
    | cons d ds =>
      rw [hr] at hc ht
      have hcd : d = c := by simpa using hc
      refine head?_dropWhile (show c ∈ (cs.dropWhile isBlank).head? from ?_)
      rw [← ht]
      simpa using hcd
  · intro c hc
    rw [List.getLast?_reverse] at hc
    exact head?_dropWhile hc

theorem trim_trim (cs : List Char) : trim (trim cs) = trim cs := (tight_trim cs).trim_eq

/-- Leading blanks are trimmed away. -/
theorem trim_append_left {b cs : List Char} (hb : ∀ c ∈ b, isBlank c = true) : trim (b ++ cs) = trim cs := by
  unfold trim trimStart
  rw [List.dropWhile_append_of_pos hb]

theorem trim_cons_blank {c : Char} {cs : List Char} (hc : isBlank c = true) : trim (c :: cs) = trim cs :=
  trim_append_left (b := [c]) (by simpa using hc)

theorem mem_of_mem_trim {c : Char} {cs : List Char} (h : c ∈ trim cs) : c ∈ cs := by
  unfold trim trimEnd trimStart at h
  have h := List.dropWhile_subset _ (List.mem_reverse.1 h)
  exact List.dropWhile_subset _ (List.mem_reverse.1 h)

theorem OneLine.trim {cs : List Char} (h : OneLine cs) : OneLine (trim cs) := fun c hc => h c (mem_of_mem_trim hc)

theorem OneLine.of_suffix {cs line : List Char} (h : OneLine line) (hs : cs <:+ line) : OneLine cs := fun c hc =>
  h c (hs.subset hc)

theorem mem_dropWhile {p : Char → Bool} {cs : List Char} {c : Char} (hc : c ∈ cs) (hp : p c = false) : c ∈ cs.dropWhile p := by
  induction cs with
  | nil => cases hc
  | cons d cs ih =>
    cases hd : p d with
    | false => simpa [hd] using hc
    | true =>
      have hne : c ≠ d := by
        rintro rfl
        simp [hp] at hd
      simpa [hd] using ih (List.mem_of_ne_of_mem hne hc)

/-- Only blanks are trimmed away. -/
theorem mem_trim {cs : List Char} {c : Char} (hc : c ∈ cs) (hb : isBlank c = false) : c ∈ trim cs := by
  unfold trim trimEnd trimStart
  exact List.mem_reverse.2 (mem_dropWhile (List.mem_reverse.2 (mem_dropWhile hc hb)) hb)

/-- Trimming the end of a text takes blanks away. -/
theorem trimStart_eq (cs : List Char) : ∃ b, trimStart cs = trim cs ++ b ∧ ∀ c ∈ b, isBlank c = true := by
  refine ⟨((trimStart cs).reverse.takeWhile isBlank).reverse, ?_, ?_⟩
  · rw [trim, trimEnd, ← List.reverse_append, List.takeWhile_append_dropWhile, List.reverse_reverse]
  · intro c hc
    exact List.all_eq_true.1 List.all_takeWhile c (List.mem_reverse.1 hc)

/-- A text is what is left of it between what was trimmed away. -/
theorem trim_between (cs : List Char) : ∃ lead trail, cs = lead ++ (trim cs ++ trail) ∧ ∀ c ∈ trail, isBlank c = true := by
  obtain ⟨trail, he, hb⟩ := trimStart_eq cs
  exact ⟨cs.takeWhile isBlank, trail, by rw [← he, trimStart, List.takeWhile_append_dropWhile], hb⟩

theorem length_trim_le (cs : List Char) : (trim cs).length ≤ cs.length := by
  obtain ⟨lead, trail, he, -⟩ := trim_between cs
  have := congrArg List.length he
  simp only [List.length_append] at this
  omega

/-- A text that begins without a blank is trimmed only at its end. -/
theorem trim_prefix {cs : List Char} (h : ∀ c ∈ cs.head?, isBlank c = false) : ∃ b, cs = trim cs ++ b := by
  unfold trim trimStart
  rw [dropWhile_of_head h]
  obtain ⟨b, hb⟩ := (List.dropWhile_suffix isBlank (l := cs.reverse)).reverse
  rw [List.reverse_reverse] at hb
  exact ⟨b, hb.symm⟩

/-! ## Words -/

theorem takeWhile_word {w : List Char} (hw : Solid w) (cs : List Char) :
    ((w ++ cs).takeWhile fun c => !isBlank c) = w ++ cs.takeWhile fun c => !isBlank c :=
  List.takeWhile_append_of_pos (by simpa [Solid] using hw)

theorem dropWhile_word {w : List Char} (hw : Solid w) (cs : List Char) :
    ((w ++ cs).dropWhile fun c => !isBlank c) = cs.dropWhile fun c => !isBlank c :=
  List.dropWhile_append_of_pos (by simpa [Solid] using hw)

/-- A word with a blank after it. -/
theorem splitWord_eq {w rest : List Char} {c : Char} (hw : Solid w) (hw0 : w ≠ []) (hc : isBlank c = true) :
    splitWord (w ++ c :: rest) = (w, trim (c :: rest)) := by
  have hs : trimStart (w ++ c :: rest) = w ++ c :: rest := by
    obtain ⟨d, w, rfl⟩ := List.exists_cons_of_ne_nil hw0
    exact dropWhile_of_head (by simpa using hw d (by simp))
  simp [splitWord, hs, takeWhile_word hw, dropWhile_word hw, hc]

/-- A word with blanks and a tight text after it. -/
theorem splitWord_blanks {w b rest : List Char} (hw : Solid w) (hw0 : w ≠ []) (hb : ∀ c ∈ b, isBlank c = true) (hb0 : b ≠ [])
    (hr : Tight rest) : splitWord (w ++ (b ++ rest)) = (w, rest) := by
  have ht := (trim_append_left hb).trans hr.trim_eq
  obtain ⟨c, b, rfl⟩ := List.exists_cons_of_ne_nil hb0
  rw [List.cons_append] at ht ⊢
  rw [splitWord_eq hw hw0 (hb c (by simp)), ht]

/-- A word with a tight text after it. -/
theorem splitWord_append {w rest : List Char} (hw : Solid w) (hw0 : w ≠ []) (hr : Tight rest) :
    splitWord (w ++ ' ' :: rest) = (w, rest) :=
  splitWord_blanks (b := [' ']) hw hw0 (by rintro _ ⟨⟩ <;> first | rfl | contradiction) (by simp) hr

theorem Tight.of_suffix {cs ds : List Char} (h : Tight (cs ++ ds)) (hd : ∀ c ∈ ds.head?, isBlank c = false) : Tight ds := by
  refine ⟨hd, fun c hc => h.2 c ?_⟩
  rw [List.getLast?_append, Option.mem_def.1 hc]
  rfl

/-- A tight text is a word, or a word and a tight text with blanks between them. -/
theorem Tight.words {cs : List Char} (h : Tight cs) :
    ((splitWord cs).2 = [] ∧ Solid cs) ∨
      ∃ b, cs = (splitWord cs).1 ++ (b ++ (splitWord cs).2) ∧ Solid (splitWord cs).1 ∧ (splitWord cs).1 ≠ [] ∧
        (∀ c ∈ b, isBlank c = true) ∧ b ≠ [] ∧ (splitWord cs).2 ≠ [] := by
  have hs : trimStart cs = cs := dropWhile_of_head h.1
  have hsplit := List.takeWhile_append_dropWhile (p := fun c => !isBlank c) (l := cs)
  have hword : Solid (cs.takeWhile fun c => !isBlank c) := fun c hc => by
    simpa using (List.all_eq_true.1 List.all_takeWhile c hc : (!isBlank c) = true)
  simp only [splitWord, hs]
  cases hm : cs.dropWhile fun c => !isBlank c with
  | nil =>
    rw [hm, List.append_nil] at hsplit
    exact .inl ⟨rfl, hsplit ▸ hword⟩
  | cons c m =>
    have hc : isBlank c = true := by
      have := head?_dropWhile (show c ∈ (cs.dropWhile fun c => !isBlank c).head? by rw [hm]; rfl)
      simpa using this
    rw [hm] at hsplit
    have hblank : ∀ d ∈ (c :: m).takeWhile isBlank, isBlank d = true := List.all_eq_true.1 List.all_takeWhile
    have hsplit' := List.takeWhile_append_dropWhile (p := isBlank) (l := c :: m)
    have htight : Tight ((c :: m).dropWhile isBlank) := by
      rw [← hsplit, ← hsplit', ← List.append_assoc] at h
      exact h.of_suffix fun d hd => head?_dropWhile hd
    have htrim : trim (c :: m) = (c :: m).dropWhile isBlank := by
      have := (trim_append_left hblank).trans htight.trim_eq
      rwa [hsplit'] at this
    have hrest : (c :: m).dropWhile isBlank ≠ [] := by
      intro hnil
      rw [hnil, List.append_nil] at hsplit'
      have hlast : (c :: m).getLast (by simp) ∈ cs.getLast? := by
        rw [← hsplit, List.getLast?_append, List.getLast?_eq_some_getLast (by simp)]
        rfl
      have hmem := hblank ((c :: m).getLast (by simp)) (by rw [hsplit']; exact List.getLast_mem _)
      rw [h.2 _ hlast] at hmem
      cases hmem
    refine .inr ⟨(c :: m).takeWhile isBlank, by rw [htrim, hsplit', hsplit], hword, ?_, hblank, by simp [hc], htrim ▸ hrest⟩
    intro hw
    rw [hw, List.nil_append] at hsplit
    have := h.1 c (by rw [← hsplit]; rfl)
    rw [hc] at this
    cases this

/-- What is appended to a text of several words is appended to what follows its first
word. -/
theorem splitWord_more {xs ys : List Char} (hx : Tight xs) (hr : (splitWord xs).2 ≠ []) (h : Tight (xs ++ ys)) :
    splitWord (xs ++ ys) = ((splitWord xs).1, (splitWord xs).2 ++ ys) ∧ Tight ((splitWord xs).2 ++ ys) := by
  rcases hx.words with ⟨hnil, -⟩ | ⟨b, he, hw, hw0, hb, hb0, -⟩
  · exact absurd hnil hr
  · have hrest : Tight (splitWord xs).2 := tight_trim _
    have ht : Tight ((splitWord xs).2 ++ ys) := by
      rw [he, List.append_assoc, List.append_assoc, ← List.append_assoc] at h
      refine h.of_suffix fun c hc => hrest.1 c ?_
      obtain ⟨d, rest, hd⟩ := List.exists_cons_of_ne_nil hr
      rw [hd] at hc ⊢
      exact hc
    have := splitWord_blanks hw hw0 hb hb0 ht
    rw [← List.append_assoc b, ← List.append_assoc (splitWord xs).1, ← he] at this
    exact ⟨this, ht⟩

theorem splitWord_solid {w : List Char} (hw : Solid w) : splitWord w = (w, []) := by
  have h := takeWhile_word hw []
  have h' := dropWhile_word hw []
  simp only [List.append_nil, List.takeWhile_nil, List.dropWhile_nil] at h h'
  simp [splitWord, trimStart, dropWhile_of_head hw.tight.1, h, h', tight_nil.trim_eq]

/-- A solid beginning of a text is in its first word. -/
theorem mem_splitWord_fst {w rest : List Char} (hw : Solid w) {c : Char} (hc : c ∈ w) : c ∈ (splitWord (w ++ rest)).1 := by
  obtain ⟨d, w, rfl⟩ := List.exists_cons_of_ne_nil (List.ne_nil_of_mem hc)
  have hs : trimStart (d :: w ++ rest) = d :: w ++ rest :=
    dropWhile_of_head (by simpa using hw d (by simp))
  simp only [splitWord, hs, takeWhile_word hw]
  exact List.mem_append_left _ hc

theorem mem_of_mem_splitWord {c : Char} {cs : List Char} (h : c ∈ (splitWord cs).2) : c ∈ cs :=
  List.dropWhile_subset _ (List.dropWhile_subset _ (mem_of_mem_trim h))

end Lifeline.Text
