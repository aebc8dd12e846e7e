import Lifeline.Proofs.Nesting
import Lifeline.Proofs.Script
/-!
# Reading a script

A text whose lines hold nested statements is read into a draft that the events of the
statements lead to.
-/

namespace Lifeline

open Text

/-- A statement that means the same to every draft: any but a creation by a bare directive,
which takes kind and label from the draft. -/
def Statement.IsFixed : Statement → Prop
  | .directive x => x.kind ≠ .create
  | _ => True

/-- The events of a statement that means the same to every draft. -/
def Statement.draftEvents (s : Statement) : List Event := Operation.statementEvents {} s

theorem Statement.IsFixed.events_eq {s : Statement} (h : s.IsFixed) (d : Draft) :
    Operation.statementEvents d s = s.draftEvents := by
  cases s with
  | directive x =>
    cases hk : x.kind with
    | create => exact absurd hk h
    | _ => simp only [Statement.draftEvents, Operation.statementEvents, hk]
  | _ => rfl

namespace Session

variable {s : Session}

theorem feed_steps (line : SourceLine) {x : Statement} {regions : List Region} (hx : x.Sound) (hf : x.IsFixed)
    (h : Region.enter s.draft.regions x = some regions) :
    Draft.Steps s.draft x.draftEvents (s.feed false line x).1.draft := by
  obtain ⟨a, ha, hs⟩ := feed_taken false line hx h
  rw [hs]
  exact hf.events_eq s.draft ▸ Draft.steps_feed ha

/-- Reading statements that fit takes the steps of their events. -/
theorem readLines_steps {lines : List SourceLine} {xs : List Statement} {regions : List Region}
    (h : lines.map (fun line => Statement.ofLine line.text) = xs.map .ok) (hf : ∀ x ∈ xs, x.IsFixed)
    (he : Region.enterAll s.draft.regions xs = some regions) :
    Draft.Steps s.draft (xs.flatMap Statement.draftEvents) (s.readLines false lines).1.draft := by
  induction lines generalizing xs s with
  | nil =>
    obtain rfl : xs = [] := by simpa using h.symm
    exact .nil
  | cons line lines ih =>
    obtain ⟨x, xs, rfl, hx, h⟩ := List.map_eq_cons_iff.1 h.symm
    have hsound := Statement.sound_of_ofLine hx.symm
    obtain ⟨regions', hx', hrest⟩ := Option.bind_eq_some_iff.1 he
    obtain ⟨hgo, hregions⟩ := feed_fits line hsound hx'
    have hsteps := feed_steps line hsound (hf x (by simp)) hx'
    simp only [readLines, readLine_of_ok hx.symm, andThen_of_none hgo.1, List.flatMap_cons]
    exact hsteps.append (ih h.symm (fun y hy => hf y (List.mem_cons_of_mem x hy)) (hregions ▸ hrest))

end Session

theorem numbered_texts (n : Nat) (texts : List String) : (numbered n texts).map SourceLine.text = texts := by
  induction texts generalizing n with
  | nil => rfl
  | cons text texts ih => simp [numbered, ih]

/-- A text is read into a draft that the events of its lines lead to, with nothing to
report, if its lines hold nested statements. -/
theorem Diagram.read_script (layout : Layout) {script : List Saying} (h : ∀ e ∈ script, Reads e.1.text e.2)
    (hf : ∀ e ∈ script, e.2.IsFixed) (he : Region.enterAll [] (script.map Prod.snd) = some []) :
    ∃ r : Draft, Draft.Steps {} (script.flatMap fun e => e.2.draftEvents) r ∧ r.frames = [] ∧
      Diagram.read (textOf layout (⟨0, headerWord⟩ :: script.map Prod.fst)) false = .ok r.build := by
  have hplain : ∀ l ∈ ⟨0, headerWord⟩ :: script.map Prod.fst, Plain l.text.toList := by
    intro l hl
    rcases List.mem_cons.1 hl with rfl | hl
    · exact plain_header
    · obtain ⟨e, hm, rfl⟩ := List.mem_map.1 hl
      exact (h e hm).plain
  have hlines := significantLines_textOf layout hplain
  have hrest : (numbered 2 ((script.map Prod.fst).map Line.text)).map (fun line => Statement.ofLine line.text) =
      (script.map Prod.snd).map .ok := by
    have := congrArg (List.map Statement.ofLine) (numbered_texts 2 ((script.map Prod.fst).map Line.text))
    rw [List.map_map] at this
    refine this.trans ?_
    simp only [List.map_map]
    exact List.map_congr_left fun e hm => (h e hm).ofLine
  have hf' : ∀ x ∈ script.map Prod.snd, x.IsFixed := by
    intro x hx
    obtain ⟨e, hm, rfl⟩ := List.mem_map.1 hx
    exact hf e hm
  have hsteps := Session.readLines_steps (s := {}) hrest hf' he
  obtain ⟨told, hgo, ⟨rfl, hregions⟩ | ⟨-, hnone⟩⟩ := Session.readLines_accepted (s := {}) hrest
  · generalize hstep : ({} : Session).readLines false (numbered 2 ((script.map Prod.fst).map Line.text)) = step
      at hsteps hgo hregions
    have hframes : step.1.draft.frames = [] := by
      have : some [] = some step.1.draft.regions := he.symm.trans hregions
      simpa [Draft.regions] using this
    refine ⟨step.1.draft, by simpa [List.flatMap_map] using hsteps, hframes, ?_⟩
    have hall : Session.andThen (({} : Session).readLines false (numbered 2 ((script.map Prod.fst).map Line.text)))
        (fun s => s.reportOpen false s.draft.frames.reverse) = (step.1, none) := by
      rw [hstep, Session.andThen_of_none hgo.1, hframes]
      rfl
    rw [Diagram.read_eq hlines kind_header hall rfl]
    have hd : step.1.diagnostics = [] := hgo.2
    simp only [Session.finish, hd]
    rfl
  · exact absurd hnone (by simp [show Region.enterAll ({} : Session).draft.regions _ = some [] from he])

end Lifeline
