import Lifeline.Proofs.RoundTrip
import Lifeline.Proofs.Seams
/-!
# Texts that are said

A diagram with one message or one note keeps any text that is on one line when it is in
normal form. The normal form marks newlines, but no other character at which a text is
divided into lines: what follows such a character stands on a line of its own, and is read
as a statement or reported (`text_survives_iff`).
-/

namespace Lifeline

open Text

/-- The draft is written as a text that is read back without a report, and all that happens
there is the item. -/
def Draft.Tells (d : Draft) (layout : Layout) (item : Statement) : Prop :=
  ∃ text m, d.build.write layout = .ok text ∧ Diagram.read text false = .ok m ∧ m.diagnostics = [] ∧ m.timeline = [item]

/-- Tidy operations that leave no block open tell what happens in their draft. -/
theorem TidyRun.tells {ops : List Operation} {d : Draft} (hs : TidyRun {} ops d) (hclosed : d.frames = []) {item : Statement}
    (hitem : d.build.timeline = [item]) (layout : Layout) : d.Tells layout item := by
  have hd := hs.kept
  have hlegible := hd.tidy.legible (hd.tidy.separate hd.wellFormed hd.marked) hd.wellFormed hd.aligned hd.marked
  have hopen : History.openAfter d.past = [] := by simpa [hclosed, Frames.blocks] using hd.aligned.frames
  obtain ⟨text, r, hw, hr, hsteps, -⟩ := hlegible.write_read layout
  obtain ⟨hpast, -, -⟩ := hlegible.replay hd.settled hopen layout hsteps
  rw [shown_reread hd.tidy.shown hd.aligned.history] at hpast
  refine ⟨text, r.build, hw, hr, rfl, ?_⟩
  rw [← hitem]
  have ha : r.Aligned := hsteps.aligned Draft.aligned_empty
  rw [Draft.build, Draft.build, hd.aligned.timeline_congr ha hpast, Draft.nextOrder, hpast, Draft.nextOrder]

/-- A message with a text. -/
def saying (t : String) : Message := { source := { id := "A" }, target := { id := "B" }, text := some t }

/-- A note with a text. -/
def noting (t : String) : Note := { placement := .over, targets := ["A"], text := t }

theorem isSafe_ends : IsSafe "A" ∧ IsSafe "B" := by
  constructor <;>
    exact ⟨by decide, by decide, by simp, fun ⟨l, h⟩ => by cases l <;> cases h <;> decide, by decide, by decide⟩

theorem said_iff (t : String) (layout : Layout) :
    (Draft.addMessage {} (saying t)).draft.Tells layout (.message { saying (normalized t) with order := 0 }) ↔
      OneLine (normalized t).toList := by
  constructor
  · rintro ⟨text, m, -, hr, -, ht⟩
    have hfits := Diagram.fits_of_read hr (ht ▸ List.mem_singleton_self _)
    exact (hfits.text _ rfl).2
  · intro ho
    have htidy : (Operation.addMessage (saying t)).IsTidy {} := by
      refine ⟨isSafe_ends.1, isSafe_ends.2, ?_⟩
      rintro _ ⟨⟩
      exact ho
    exact TidyRun.tells (.cons htidy rfl .nil) rfl rfl layout

theorem noted_iff (t : String) (layout : Layout) :
    (Draft.addNote {} (noting t)).draft.Tells layout (.note { noting (normalized t) with order := 0 }) ↔
      OneLine (normalized t).toList := by
  constructor
  · rintro ⟨text, m, -, hr, -, ht⟩
    have hfits := Diagram.items_of_read hr (ht ▸ List.mem_singleton_self _)
    exact (hfits : Note.Legible { noting (normalized t) with order := 0 }).text.2
  · intro ho
    have htidy : (Operation.addNote (noting t)).IsTidy {} := by
      refine ⟨fun id hid => ?_, ho⟩
      obtain rfl := List.mem_singleton.1 hid
      exact isSafe_ends.1
    exact TidyRun.tells (.cons htidy rfl .nil) rfl rfl layout

/-- A message or a note with any text can be added, and it is read back with the text in
normal form if and only if that is on one line. -/
theorem text_survives_iff (t : String) (layout : Layout) :
    (∃ a, (Draft.addMessage {} (saying t)).result = .ok a) ∧ (∃ a, (Draft.addNote {} (noting t)).result = .ok a) ∧
    ((Draft.addMessage {} (saying t)).draft.Tells layout (.message { saying (normalized t) with order := 0 }) ↔
      OneLine (normalized t).toList) ∧
    ((Draft.addNote {} (noting t)).draft.Tells layout (.note { noting (normalized t) with order := 0 }) ↔
      OneLine (normalized t).toList) :=
  ⟨⟨_, rfl⟩, ⟨_, rfl⟩, said_iff t layout, noted_iff t layout⟩

/-- What is read where a text goes on behind a carriage return. -/
def answered : Diagram :=
  let asked : Message := { saying "a" with order := 0 }
  let answer : Message := { source := { id := "B" }, target := { id := "A" }, text := some "b", order := 1 }
  { participants := [{ id := "A" }, { id := "B" }]
    timeline := [.message asked, .message answer]
    statements := [.message asked, .message answer] }

/-- A text that goes on behind a carriage return is read as another message there. -/
theorem carriage_return_answers : ∃ t text, (Draft.addMessage {} (saying t)).draft.build.write {} = .ok text ∧
    Diagram.read text false = .ok answered ∧
    ¬(Draft.addMessage {} (saying t)).draft.Tells {} (.message { saying (normalized t) with order := 0 }) := by
  refine ⟨"a\rB->>A: b", "sequenceDiagram\n    participant A\n    participant B\n    A->>B: a\rB->>A: b\n", ?_, ?_, ?_⟩
  · decide +kernel
  · decide +kernel
  · rw [said_iff]
    decide +kernel

end Lifeline
