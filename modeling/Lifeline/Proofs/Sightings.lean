import Lifeline.Proofs.Arrows
/-!
# The arrow that is found

Several literals can stand in one text, and even at one place of it: `-->` stands where
`-->>` does, and `->` one place behind. The arrow that is found is the leftmost, and the
longest where it stands (`Arrow.leftmost_longest`). Leftmost comes from the walk over the
text. Longest rests on the order in which literals are tried, which lists none behind one
that begins it (`Arrow.pairwise_scanOrder`); the lengths themselves are never compared.
The two properties leave one arrow only (`Arrow.find?_eq_some_iff`).
-/

namespace Lifeline.Arrow

variable {cs text : List Char} {a b : Arrow} {s : Sighting}

/-! ## At one place -/

theorem mem_scanOrder (a : Arrow) : a ∈ scanOrder := by
  obtain ⟨line, head⟩ := a
  cases line <;> cases head <;> decide

/-- No literal is tried after one that begins it. -/
theorem pairwise_scanOrder : scanOrder.Pairwise fun a b => ¬a.literal <+: b.literal := by decide

theorem eq_of_literal_eq (h : a.literal = b.literal) : a = b := by
  have ha := @startOf?_literal a [] (by simp)
  rw [h, startOf?_literal b (by simp)] at ha
  exact (Option.some.inj ha).symm

theorem startOf?_eq_none_iff : startOf? cs = none ↔ ∀ a : Arrow, ¬a.literal <+: cs := by
  simp [startOf?, mem_scanOrder]

/-- The arrow that begins a text is the longest that does. -/
theorem length_le_of_startOf? (h : startOf? cs = some a) (hb : b.literal <+: cs) :
    b.literal.length ≤ a.literal.length := by
  obtain ⟨-, tried, untried, horder, htried⟩ := List.find?_eq_some_iff_append.1 h
  have hmem : b ∈ tried ++ a :: untried := horder ▸ mem_scanOrder b
  have hpair : (tried ++ a :: untried).Pairwise fun a b => ¬a.literal <+: b.literal := horder ▸ pairwise_scanOrder
  simp only [List.mem_append, List.mem_cons] at hmem
  obtain hmem | rfl | hmem := hmem
  · -- it was tried before and did not begin the text
    have hno : b.literal.isPrefixOf cs = false := by simpa using htried b hmem
    exact absurd (List.isPrefixOf_iff_prefix.2 hb) (by simp [hno])
  · exact Nat.le_refl _
  · -- it would be tried later, so the arrow does not begin it: it is shorter
    have hab : ¬a.literal <+: b.literal := (List.pairwise_cons.1 (List.pairwise_append.1 hpair).2.1).1 b hmem
    refine Nat.le_of_not_le fun hle => hab ?_
    exact List.prefix_of_prefix_length_le (literal_begins h) hb hle

/-! ## Along the text -/

/-- Nothing is found exactly in a text without a literal. -/
theorem find?_eq_none_iff : find? text = none ↔ ∀ a : Arrow, ¬a.literal <:+: text := by
  induction text with
  | nil => simp [find?, literal_ne_nil]
  | cons c cs ih => simp only [find?_cons_eq_none_iff, startOf?_eq_none_iff, ih, List.infix_cons_iff, not_or, forall_and]

/-- What is found is what begins the text at its place, and nothing does so before. -/
theorem startOf?_drop (h : find? text = some s) :
    startOf? (text.drop s.start) = some s.arrow ∧ ∀ i < s.start, startOf? (text.drop i) = none := by
  induction text generalizing s with
  | nil => cases h
  | cons c cs ih =>
    rw [find?] at h
    cases hc : startOf? (c :: cs) with
    | some a =>
      -- found at the beginning, and no place comes before that
      rw [hc] at h
      cases h
      exact ⟨hc, fun i hi => absurd hi (Nat.not_lt_zero i)⟩
    | none =>
      -- found in the rest, with every place moved by one
      rw [hc] at h
      obtain ⟨s', hs', rfl⟩ := Option.map_eq_some_iff.1 h
      obtain ⟨hstart, hbefore⟩ := ih hs'
      refine ⟨hstart, fun i hi => ?_⟩
      cases i with
      | zero => exact hc
      | succ i => exact hbefore i (Nat.lt_of_succ_lt_succ hi)

theorem startOf?_eq_none {c : Char} (hc : ¬(c = '-' ∨ c = '<')) (cs : List Char) : startOf? (c :: cs) = none := by
  obtain ⟨hdash, hbracket⟩ := not_or.1 hc
  rw [← Option.not_isSome_iff_eq_none, startOf?_isSome hbracket]
  simp [hdash]

/-- Every literal begins with a dash or a bracket, so a walk that tries the literals at
these characters alone finds the same. -/
theorem find?_cons (c : Char) (cs : List Char) :
    find? (c :: cs) =
      match if c = '-' ∨ c = '<' then startOf? (c :: cs) else none with
      | some a => some ⟨[], a, (c :: cs).drop a.literal.length⟩
      | none => (find? cs).map fun s => { s with before := c :: s.before } := by
  by_cases hc : c = '-' ∨ c = '<'
  · rw [if_pos hc]
    rfl
  · rw [if_neg hc, find?, startOf?_eq_none hc]

/-! ## The first of a text -/

/-- The sighting divides the text at a literal that stands before every other one and is
the longest at its place. -/
structure Sighting.IsFirst (s : Sighting) (text : List Char) : Prop where
  divides : text = s.before ++ (s.arrow.literal ++ s.after)
  leftmost : ∀ i < s.start, ∀ a : Arrow, ¬a.literal <+: text.drop i
  longest : ∀ a : Arrow, a.literal <+: text.drop s.start → a.literal.length ≤ s.arrow.literal.length

namespace Sighting.IsFirst

variable {s' : Sighting}

theorem drop_start (h : s.IsFirst text) : text.drop s.start = s.arrow.literal ++ s.after := by
  rw [h.divides, start, List.drop_left]

theorem start_le (h : s.IsFirst text) (h' : s'.IsFirst text) : s.start ≤ s'.start :=
  Nat.le_of_not_lt fun hlt => h.leftmost _ hlt s'.arrow (h'.drop_start ▸ List.prefix_append ..)

/-- A text has one first sighting at most. -/
theorem unique (h : s.IsFirst text) (h' : s'.IsFirst text) : s = s' := by
  have hstart : s.start = s'.start := Nat.le_antisymm (h.start_le h') (h'.start_le h)
  have hdrop : s.arrow.literal ++ s.after = s'.arrow.literal ++ s'.after := by
    rw [← h.drop_start, ← h'.drop_start, hstart]
  have hlength : s.arrow.literal.length = s'.arrow.literal.length := by
    apply Nat.le_antisymm
    · exact h'.longest _ (by rw [h'.drop_start, ← hdrop]; exact List.prefix_append ..)
    · exact h.longest _ (by rw [h.drop_start, hdrop]; exact List.prefix_append ..)
  obtain ⟨hbefore, -⟩ := List.append_inj (h.divides.symm.trans h'.divides) hstart
  obtain ⟨hliteral, hafter⟩ := List.append_inj hdrop hlength
  obtain ⟨before, arrow, after⟩ := s
  obtain ⟨before', arrow', after'⟩ := s'
  cases eq_of_literal_eq hliteral
  cases hbefore
  cases hafter
  rfl

end Sighting.IsFirst

theorem isFirst_of_find? (h : find? text = some s) : s.IsFirst text where
  divides := find?_eq h
  leftmost i hi := startOf?_eq_none_iff.1 ((startOf?_drop h).2 i hi)
  longest _ ha := length_le_of_startOf? (startOf?_drop h).1 ha

/-- What is found is the first of the text. -/
theorem find?_eq_some_iff : find? text = some s ↔ s.IsFirst text := by
  refine ⟨isFirst_of_find?, fun h => ?_⟩
  cases hf : find? text with
  | some s' => rw [(isFirst_of_find? hf).unique h]
  | none =>
    have hin : s.arrow.literal <:+: text := ⟨s.before, s.after, by rw [List.append_assoc]; exact h.divides.symm⟩
    exact absurd hin (find?_eq_none_iff.1 hf s.arrow)

/-- Nothing is found exactly where no literal occurs. Otherwise the literal of the arrow
stands between the two places that are given, none stands at an earlier place, and none at
the same place is longer. -/
theorem leftmost_longest (text : List Char) :
    (find? text = none ↔ ∀ a : Arrow, ¬a.literal <:+: text) ∧
    ∀ s, find? text = some s →
      text.extract s.start s.stop = s.arrow.literal ∧
      (∀ i < s.start, ∀ a : Arrow, ¬a.literal <+: text.drop i) ∧
      ∀ a : Arrow, a.literal <+: text.drop s.start → a.literal.length ≤ s.stop - s.start := by
  refine ⟨find?_eq_none_iff, fun s h => ?_⟩
  have hfirst := find?_eq_some_iff.1 h
  have hwidth : s.stop - s.start = s.arrow.literal.length := Nat.add_sub_cancel_left ..
  refine ⟨?_, hfirst.leftmost, hwidth ▸ hfirst.longest⟩
  rw [List.extract_eq_take_drop, hfirst.drop_start, hwidth, List.take_left]

example : find? "A--x->>B".toList = some ⟨['A'], ⟨.dashed, .cross⟩, "->>B".toList⟩ := by decide

end Lifeline.Arrow
