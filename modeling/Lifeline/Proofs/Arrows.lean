import Lifeline.Arrow
/-!
# Arrows in a line

An arrow that is written between two texts is found again where it stands, if no arrow
begins before it (`Arrow.find?_written`). One that begins before it would take in the
end of the text before: only a dash there can do this, in front of a solid line.
-/

namespace Lifeline.Arrow

/-- Whether a character can follow the dashes of an arrow. -/
def isTip (c : Char) : Bool := c == '>' || c == 'x' || c == ')'

/-- Whether a dash before the text makes it begin with an arrow. -/
def tipped : List Char → Bool
  | [] => false
  | c :: cs => isTip c || (c == '-' && cs.head?.any isTip)

/-- Whether the literal is a single dash with a tip, so that a dash before it makes it
another arrow. -/
def isThin (a : Arrow) : Bool := a.line == .solid && a.head != .bothArrow

theorem literal_ne_nil (a : Arrow) : a.literal ≠ [] := by
  obtain ⟨line, head⟩ := a
  cases line <;> cases head <;> decide

theorem literal_begins {a : Arrow} {cs : List Char} (h : startOf? cs = some a) : a.literal <+: cs := by
  simpa using List.find?_some h

theorem startOf?_isSome {c : Char} (hc : c ≠ '<') (cs : List Char) :
    (startOf? (c :: cs)).isSome = (c == '-' && tipped cs) := by
  have hany : (startOf? (c :: cs)).isSome = scanOrder.any fun a => a.literal.isPrefixOf (c :: cs) :=
    Bool.eq_iff_iff.2 (by simp [startOf?])
  have hc' : ('<' == c) = false := beq_eq_false_iff_ne.2 hc.symm
  rw [hany]
  clear hany
  simp only [scanOrder, literal, LineStyle.dashes, HeadStyle.ends, List.flatMap_cons, List.flatMap_nil, List.any_cons,
    List.any_nil, List.cons_append, List.nil_append, List.append_nil, List.isPrefixOf_cons_cons, Bool.or_false, hc',
    Bool.false_and, Bool.false_or]
  match cs with
  | [] => simp [tipped]
  | [d] =>
    simp only [List.isPrefixOf, tipped, isTip]
    grind
  | d :: e :: cs =>
    simp only [List.isPrefixOf, tipped, isTip, List.head?_cons, Option.any_some]
    grind

theorem find?_cons_eq_none_iff {c : Char} {cs : List Char} :
    find? (c :: cs) = none ↔ startOf? (c :: cs) = none ∧ find? cs = none := by
  rw [find?]
  cases startOf? (c :: cs) <;> simp

theorem find?_cons_eq_none {c : Char} (hc : c ≠ '<') {cs : List Char} :
    find? (c :: cs) = none ↔ (c == '-' && tipped cs) = false ∧ find? cs = none := by
  rw [find?_cons_eq_none_iff, ← startOf?_isSome hc, Option.isSome_eq_false_iff, Option.isNone_iff_eq_none]

/-- The literal of an arrow begins with this arrow, unless it is made longer. -/
theorem startOf?_literal (a : Arrow) {after : List Char} (h : after.head? ≠ some '>') :
    startOf? (a.literal ++ after) = some a := by
  have hp : (['>'].isPrefixOf after) = false := by
    cases after with
    | nil => rfl
    | cons c cs => simpa [List.isPrefixOf] using fun h' : '>' = c => h (by simp [h'.symm])
  obtain ⟨line, head⟩ := a
  cases line <;> cases head <;>
    simp [startOf?, scanOrder, literal, LineStyle.dashes, HeadStyle.ends, List.isPrefixOf, hp]

theorem tipped_append {y z : List Char} (hy : tipped y = false) (hy0 : y ≠ []) (hz : z.head?.any isTip = false) :
    tipped (y ++ z) = false := by
  match y, hy0 with
  | [c], _ =>
    simp only [tipped, List.head?_nil, Option.any_none, Bool.and_false, Bool.or_false] at hy
    simp [tipped, hy, hz]
  | c :: d :: y, _ => simpa [tipped] using hy

/-- The literal of an arrow is not a tip, and a dash before it makes an arrow only of a
thin one. -/
theorem tipped_literal (a : Arrow) (after : List Char) : tipped (a.literal ++ after) = a.isThin := by
  obtain ⟨line, head⟩ := a
  cases line <;> cases head <;> rfl

theorem head?_literal (a : Arrow) (after : List Char) : (a.literal ++ after).head?.any isTip = false := by
  obtain ⟨line, head⟩ := a
  cases line <;> cases head <;> rfl

/-- What is found in a text makes up the text. -/
theorem find?_eq {cs : List Char} {s : Sighting} (h : find? cs = some s) : cs = s.before ++ (s.arrow.literal ++ s.after) := by
  induction cs generalizing s with
  | nil => cases h
  | cons c cs ih =>
    unfold find? at h
    split at h
    · rename_i a ha
      cases h
      exact (List.prefix_iff_eq_append.1 (literal_begins ha)).symm
    · obtain ⟨s', hs', rfl⟩ := Option.map_eq_some_iff.1 h
      exact congrArg (c :: ·) (ih hs')

/-- An arrow is found where it stands if no arrow begins before it. -/
theorem find?_written {before after : List Char} (a : Arrow) (hf : find? before = none) (hlt : '<' ∉ before)
    (hd : before.getLast? = some '-' → a.isThin = false) (ha : after.head? ≠ some '>') :
    find? (before ++ (a.literal ++ after)) = some ⟨before, a, after⟩ := by
  induction before with
  | nil =>
    obtain ⟨c, cs, hl⟩ := List.exists_cons_of_ne_nil a.literal_ne_nil
    have hs := startOf?_literal a ha
    rw [hl, List.cons_append] at hs
    simp only [List.nil_append, hl, List.cons_append, find?, hs]
    simp
  | cons c before ih =>
    have hc : c ≠ '<' := fun h => hlt (h ▸ List.mem_cons_self)
    obtain ⟨ht, hf⟩ := (find?_cons_eq_none hc).1 hf
    have hs : startOf? (c :: (before ++ (a.literal ++ after))) = none := by
      rw [← Option.not_isSome_iff_eq_none, startOf?_isSome hc]
      by_cases hd' : c = '-'
      · subst hd'
        have ht : tipped before = false := by simpa using ht
        by_cases hb : before = []
        · subst hb
          simp [tipped_literal, hd rfl]
        · simp [tipped_append ht hb (head?_literal a after)]
      · simp [hd']
    have hd : before.getLast? = some '-' → a.isThin = false := by
      intro h
      refine hd ?_
      rw [List.getLast?_cons, h]
      rfl
    rw [List.cons_append, find?, hs, ih hf (fun h => hlt (List.mem_cons_of_mem c h)) hd]
    rfl

end Lifeline.Arrow
