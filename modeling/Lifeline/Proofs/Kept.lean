import Lifeline.Proofs.Sessions
import Lifeline.Proofs.Recovery
/-!
# Lines that are kept in labels

A branch that does not fit the innermost open block is reported, and its line is kept in the
label of the block's current branch. A reading that reports so goes on from a draft in which
that label has grown (`Diagram.kept_of_report`).
-/

namespace Lifeline

open History Text

/-- The kind of the innermost open block. -/
def Draft.blockKind? (d : Draft) : Option BlockKind := d.frames.blocks.head?.map Prod.fst

/-- The kind of the innermost block that is open in a source before the line of a number. -/
def blockBefore? (source : String) (number : Int) : Option BlockKind :=
  let before := ((significantLines source).drop 1).takeWhile fun line => line.number < number
  (({} : Session).readLines false before).1.draft.blockKind?

/-- Where a label is extended, it is that of the innermost open block. -/
theorem Draft.Step.extends_label {d d' : Draft} {text : String} (h : Step d (.extend text) d') (ha : d.Aligned) :
    ∃ o ∈ openAfter d.past, d.blockKind? = some o.kind ∧ ∃ statements,
      d' = { d with past := changeFirst (opensBranchOf o.start) (growItem text) d.past, statements } := by
  cases h with
  | @extend _ frame hf =>
    obtain ⟨o, os, ho, hstart, -⟩ := ha.open_of_frame hf
    exact ⟨o, by simp [ho], by simp [blockKind?, ← ha.frames, ho], _, by rw [hstart, (ha.grows hf text).1]⟩

/-- A report is told by one of the lines, read when the lines before it have been read. -/
theorem Session.exists_reported {lines : List SourceLine} (s : Session) (h : (s.readLines false lines).2 = none)
    {x : Diagnostic} (hx : x ∈ (s.readLines false lines).1.diagnostics) : x ∈ s.diagnostics ∨
      ∃ (before : List SourceLine) (line : SourceLine) (after : List SourceLine) (t : Session),
        lines = before ++ line :: after ∧ (s.readLines false before).2 = none ∧
          (Fate.reported t.draft x).Fits (s.readLines false before).1.draft line ∧
          s.readLines false lines = t.readLines false after := by
  induction lines generalizing s with
  | nil => exact .inl hx
  | cons line lines ih =>
    obtain ⟨fate, hfits, hfate⟩ := readLine_fate s.draft line
    have hread := hfate s false rfl
    rw [readLines] at h hx ⊢
    obtain ⟨hline, hrest⟩ := of_andThen h
    rw [hrest] at h hx ⊢
    rcases ih _ h hx with hx | ⟨before, line', after, t, rfl, hbefore, hfits', hgo⟩
    · rw [hread] at hx hline
      cases fate with
      | taken => exact .inl hx
      | reported after y =>
        rcases List.mem_append.1 hx with hx | hx
        · exact .inl hx
        · obtain rfl := List.mem_singleton.1 hx
          exact .inr ⟨[], line, lines, (s.readLine false line).1, rfl, rfl, hread ▸ hfits, rfl⟩
      | broken => cases hline
    · refine .inr ⟨line :: before, line', after, t, rfl, ?_, ?_, hgo⟩
      · rwa [readLines, andThen_of_none hline]
      · rwa [readLines, andThen_of_none hline]

/-- How a source is read as a diagram in which a line is kept, as a report says: the lines before
it lead to one session, the line to another, and the lines after it to the last. -/
structure Kept (source : String) (m : Diagram) (x : Diagnostic) where
  first : SourceLine
  before : List SourceLine
  line : SourceLine
  after : List SourceLine
  early : Session
  grown : Session
  last : Session
  lines : significantLines source = first :: (before ++ line :: after)
  header : LineKind.ofLine first.text = .ok .header
  number : x.line = line.number
  text : x.source = line.text
  reads_before : ({} : Session).readLines false before = (early, none)
  grows : Draft.Step early.draft (.extend line.text) grown.draft
  reads_after : grown.readLines false after = (last, none)
  diagram : m = { last.draft.build with diagnostics := m.diagnostics }

/-- Every report of a diagram that says so belongs to a line that is kept. -/
theorem Diagram.kept_of_report {source : String} {m : Diagram} (h : Diagram.read source false = .ok m) {x : Diagnostic}
    (hx : x ∈ m.diagnostics) (hk : x.keeps = true) : Nonempty (Kept source m x) := by
  obtain ⟨first, rest, s, hlines, hheader, hbody, rfl⟩ := Diagram.body_of_read h
  obtain ⟨hread, hdraft, htold⟩ := Session.of_readBody hbody
  -- The report is not on a frame that is left open, so a line tells it.
  have hlined : x ∈ (({} : Session).readLines false rest).1.diagnostics := by
    have hx : x ∈ s.diagnostics := hx
    rw [htold] at hx
    refine (List.mem_append.1 hx).resolve_right fun hx => ?_
    obtain ⟨frame, -, rfl⟩ := List.mem_map.1 hx
    exact absurd hk (by simp [Session.keeps_unclosed])
  obtain hnone | ⟨before, line, after, t, rfl, hbefore, ⟨hnumber, -, hkept⟩, hgo⟩ := Session.exists_reported {} hread hlined
  · cases hnone
  obtain ⟨hsource, hgrows⟩ := hkept hk
  rw [hgo] at hread hdraft
  exact ⟨{
    first, before, line, after
    early := (({} : Session).readLines false before).1
    grown := t
    last := (t.readLines false after).1
    lines := hlines
    header := hheader
    number := hnumber
    text := hsource
    reads_before := Prod.ext rfl hbefore
    grows := hgrows
    reads_after := Prod.ext rfl hread
    diagram := by rw [← hdraft]; rfl }⟩

namespace Kept

variable {source : String} {m : Diagram} {x : Diagnostic} (k : Kept source m x)

theorem plain : ∀ l ∈ k.before ++ k.line :: k.after, Plain l.text.toList := fun _ hl =>
  plain_of_significant (k.lines ▸ List.mem_cons_of_mem k.first hl)

/-- The lines before the one that is kept are those of lower numbers. -/
theorem blockBefore?_eq : blockBefore? source x.line = k.early.draft.blockKind? := by
  have hordered := (List.pairwise_cons.1 (k.lines ▸ significantLines_pairwise source)).2
  have hlower : ∀ l ∈ k.before, decide ((l.number : Int) < k.line.number) = true := fun l hl => by
    have := (List.pairwise_append.1 hordered).2.2 l hl k.line List.mem_cons_self
    simpa using this
  rw [blockBefore?, k.number, k.lines, List.drop_succ_cons, List.drop_zero, List.takeWhile_append_of_pos hlower,
    List.takeWhile_cons_of_neg (by simp), List.append_nil, k.reads_before]

/-- All lines but the one that is kept. -/
theorem lines_without : ((significantLines source).filter fun line => line.number != x.line) =
    k.first :: (k.before ++ k.after) := by
  obtain ⟨hfirst, hrest⟩ := List.pairwise_cons.1 (k.lines ▸ significantLines_pairwise source)
  obtain ⟨-, hafter, hbefore⟩ := List.pairwise_append.1 hrest
  have hother : ∀ l : SourceLine, l.number ≠ k.line.number → (l.number != x.line) = true := fun l hl => by
    rw [k.number]
    exact bne_iff_ne.2 (by omega)
  have hkeep : ∀ ls : List SourceLine, (∀ l ∈ ls, l.number ≠ k.line.number) → ls.filter (fun l => l.number != x.line) = ls :=
    fun ls hls => List.filter_eq_self.2 fun l hl => hother l (hls l hl)
  rw [k.lines, List.filter_cons, if_pos (hother _ (hfirst k.line (by simp)).ne), List.filter_append, List.filter_cons,
    if_neg (by simp [k.number]), hkeep _ fun l hl => (hbefore l hl k.line List.mem_cons_self).ne,
    hkeep _ fun l hl => ((List.pairwise_cons.1 hafter).1 l hl).ne']

theorem aligned_early : k.early.draft.Aligned := by
  have hplain : ∀ l ∈ k.before, Plain l.text.toList := fun l hl => k.plain l (List.mem_append_left _ hl)
  obtain ⟨es, hsteps, -⟩ := Session.readLines_advances hplain (congrArg Prod.snd k.reads_before)
  rw [k.reads_before] at hsteps
  exact hsteps.aligned Draft.aligned_empty

/-- The lines after the one that is kept only take steps of events. -/
theorem steps_after : ∃ es, Draft.Steps k.grown.draft es k.last.draft := by
  have hplain : ∀ l ∈ k.after, Plain l.text.toList := fun l hl => k.plain l (by simp [hl])
  obtain ⟨es, hsteps, -⟩ := Session.readLines_advances hplain (congrArg Prod.snd k.reads_after)
  rw [k.reads_after] at hsteps
  exact ⟨es, hsteps⟩

theorem aligned_grown : k.grown.draft.Aligned := k.grows.aligned k.aligned_early

theorem aligned_last : k.last.draft.Aligned := by
  obtain ⟨es, hsteps⟩ := k.steps_after
  exact hsteps.aligned k.aligned_grown

end Kept

end Lifeline
