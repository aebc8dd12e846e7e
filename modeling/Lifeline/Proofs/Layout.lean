import Lifeline.Document.Writer
import Lifeline.Proofs.Blanks
import Lifeline.Text.Lines
/-!
# The lines of a written text

Indentation and line breaks are lost on the way back: a text of plain lines is read
as just these lines (`significantLines_textOf`).
-/

namespace Lifeline

open Text

/-- A line that is kept as it is when it is read: tight, without a break, and neither
empty nor a comment. -/
structure Plain (cs : List Char) : Prop where
  tight : Tight cs
  oneLine : OneLine cs
  significant : isSignificant cs = true

theorem splitLines_append {cs : List Char} (h : OneLine cs) (rest : List Char) :
    splitLines (cs ++ '\n' :: rest) = cs :: splitLines rest := by
  have hn : isLineBreak '\n' = true := rfl
  induction cs with
  | nil => simp [splitLines, hn]
  | cons c cs ih =>
    obtain ⟨hc, hcs⟩ := oneLine_cons.1 h
    have hr : c ≠ '\r' := by
      rintro rfl
      cases hc
    rw [List.cons_append, splitLines.eq_3]
    · simp [hc, ih hcs]
    · rintro _ rfl
      exact absurd rfl hr

/-- Lines that each end in a newline are split into these lines. -/
theorem splitLines_lines {ls : List (List Char)} (h : ∀ l ∈ ls, OneLine l) :
    splitLines (ls.flatMap fun l => l ++ ['\n']) = ls := by
  induction ls with
  | nil => rfl
  | cons l ls ih =>
    rw [List.flatMap_cons, List.append_assoc, List.singleton_append, splitLines_append (h l (by simp)),
      ih fun l' hl' => h l' (by simp [hl'])]

theorem oneLine_of_splitLines {cs line : List Char} (h : line ∈ splitLines cs) : OneLine line := by
  induction cs using splitLines.induct generalizing line with
  | case1 => cases h
  | case2 cs ih =>
    rw [splitLines] at h
    rcases List.mem_cons.1 h with rfl | h
    · exact oneLine_nil
    · exact ih h
  | case3 c cs hne hc ih =>
    rw [splitLines.eq_3 _ _ hne, if_pos hc] at h
    rcases List.mem_cons.1 h with rfl | h
    · exact oneLine_nil
    · exact ih h
  | case4 c cs hne hc hnil ih =>
    rw [splitLines.eq_3 _ _ hne, if_neg hc, hnil] at h
    rw [List.mem_singleton.1 h]
    simpa using hc
  | case5 c cs hne hc first more hcons ih =>
    rw [splitLines.eq_3 _ _ hne, if_neg hc, hcons] at h
    rcases List.mem_cons.1 h with rfl | h
    · exact oneLine_cons.2 ⟨by simpa using hc, ih (by simp [hcons])⟩
    · exact ih (by simp [hcons, h])

/-- The lines of a source that say something are plain. -/
theorem plain_of_significant {source : String} {line : SourceLine} (h : line ∈ significantLines source) :
    Plain line.text.toList := by
  obtain ⟨⟨raw, number⟩, hm, hl⟩ := List.mem_filterMap.1 h
  dsimp only at hl
  split at hl
  · rename_i hs
    obtain rfl := Option.some.inj hl
    rw [String.toList_ofList]
    have hraw : raw ∈ splitLines source.toList := List.zipIdx_map_fst 1 (splitLines source.toList) ▸ List.mem_map_of_mem hm
    exact ⟨tight_trim raw, (oneLine_of_splitLines hraw).trim, hs⟩
  · cases hl

/-- Lines with the numbers that they get when they are read. -/
def numbered (n : Nat) : List String → List SourceLine
  | [] => []
  | text :: texts => ⟨n, text⟩ :: numbered (n + 1) texts

theorem oneLine_replicate (n : Nat) : OneLine (List.replicate n ' ') := by
  intro c hc
  rw [(List.mem_replicate.1 hc).2]
  rfl

theorem trim_indented {cs : List Char} (h : Tight cs) (n : Nat) : trim (List.replicate n ' ' ++ cs) = cs := by
  rw [trim_append_left, h.trim_eq]
  intro c hc
  rw [(List.mem_replicate.1 hc).2]
  rfl

theorem textOf_toList (layout : Layout) (lines : List Line) :
    (Diagram.textOf layout lines).toList =
      (lines.map fun l => List.replicate (layout.indent * l.depth) ' ' ++ l.text.toList).flatMap
        fun l => l ++ ['\n'] := by
  simp [Diagram.textOf, String.toList_join, Line.indented, List.flatMap_map]

/-- A text of plain lines is read as these lines. -/
theorem significantLines_textOf (layout : Layout) {lines : List Line} (h : ∀ l ∈ lines, Plain l.text.toList) :
    significantLines (Diagram.textOf layout lines) = numbered 1 (lines.map Line.text) := by
  have hone : ∀ l ∈ lines.map fun l => List.replicate (layout.indent * l.depth) ' ' ++ l.text.toList, OneLine l := by
    intro _ hm
    obtain ⟨l, hl, rfl⟩ := List.mem_map.1 hm
    exact oneLine_append.2 ⟨oneLine_replicate _, (h l hl).oneLine⟩
  unfold significantLines
  rw [textOf_toList, splitLines_lines hone]
  generalize 1 = n
  clear hone
  induction lines generalizing n with
  | nil => rfl
  | cons l lines ih =>
    have hl := h l (by simp)
    have hsig := hl.significant
    simp only [List.map_cons, List.zipIdx_cons, List.filterMap_cons, trim_indented hl.tight, hsig, if_true,
      String.ofList_toList, numbered]
    rw [ih (fun l' hl' => h l' (by simp [hl'])) (n + 1)]

end Lifeline
