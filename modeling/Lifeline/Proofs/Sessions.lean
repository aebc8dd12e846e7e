import Lifeline.Proofs.Readers
/-!
# What a source leads to

Whatever a source holds, a reading that is not broken off takes only steps of events that
fit on lines: a line that is refused leaves the draft as it was, or grows a label by its text
(`Diagram.read_steps`).
-/

namespace Lifeline

open Text

namespace Session

variable {s s' : Session}

/-- The draft of a session takes only steps of events that are read from lines. -/
def Advances (s s' : Session) : Prop := ∃ es, Draft.Steps s.draft es s'.draft ∧ ∀ e ∈ es, e.IsRead

theorem Advances.of_eq (h : s'.draft = s.draft) : s.Advances s' := ⟨[], h ▸ .nil, by simp⟩

theorem Advances.trans {s'' : Session} (h : s.Advances s') (h' : s'.Advances s'') : s.Advances s'' := by
  obtain ⟨es, hs, he⟩ := h
  obtain ⟨es', hs', he'⟩ := h'
  refine ⟨es ++ es', hs.append hs', fun e hm => ?_⟩
  rcases List.mem_append.1 hm with hm | hm
  · exact he e hm
  · exact he' e hm

theorem feed_advances {line : SourceLine} (hp : Plain line.text.toList) {x : Statement} (hx : x.Sound) (hr : x.IsRead) :
    s.Advances (s.feed false line x).1 := by
  rcases feed_cases s.draft line hx with ⟨a, ha, hs⟩ | ⟨-, hs⟩ | ⟨f, -, hs⟩
  · rw [hs s false rfl]
    exact ⟨x.draftEvents, hr.fixed.events_eq s.draft ▸ Draft.steps_feed ha, hr.events⟩
  · rw [hs s false rfl]
    exact .of_eq rfl
  · rw [hs s false rfl]
    refine ⟨_, Draft.steps_extendLabel s.draft line.text, fun e he => ?_⟩
    split at he
    · obtain rfl := List.mem_singleton.1 he
      have hne : line.text.toList ≠ [] := fun h => by simpa [h, isSignificant] using hp.significant
      exact Event.Fits.isRead (e := .extend line.text) ⟨hne, hp.tight, hp.oneLine⟩ rfl
    · cases he

theorem readLine_advances {line : SourceLine} (hp : Plain line.text.toList) : s.Advances (s.readLine false line).1 := by
  unfold readLine
  cases hx : Statement.ofLine line.text with
  | ok x => exact feed_advances hp (Statement.sound_of_ofLine hx) (Statement.isRead_of_ofLine hp hx)
  | error e =>
    dsimp only
    split
    · exact .of_eq rfl
    · exact .of_eq rfl

theorem readLines_advances {lines : List SourceLine} (hp : ∀ line ∈ lines, Plain line.text.toList)
    (h : (s.readLines false lines).2 = none) : s.Advances (s.readLines false lines).1 := by
  induction lines generalizing s with
  | nil => exact .of_eq rfl
  | cons line lines ih =>
    rw [readLines] at h ⊢
    obtain ⟨-, hrest⟩ := of_andThen h
    rw [hrest] at h ⊢
    exact (readLine_advances (hp line (by simp))).trans (ih (fun l hl => hp l (List.mem_cons_of_mem line hl)) h)

end Session

/-- A source that is read is read into the diagram of a draft that events from its lines
lead to. -/
theorem Diagram.read_steps {source : String} {m : Diagram} (h : Diagram.read source false = .ok m) : ∃ d es,
    Draft.Steps {} es d ∧ (∀ e ∈ es, e.IsRead) ∧ m = { d.build with diagnostics := m.diagnostics } := by
  unfold Diagram.read transcribe at h
  split at h
  · cases h
  · rename_i first rest hlines
    have hp : ∀ line ∈ rest, Plain line.text.toList := fun line hl =>
      plain_of_significant (hlines ▸ List.mem_cons_of_mem first hl)
    split at h
    · cases h
    · unfold transcribeBody at h
      dsimp only at h
      split at h
      · cases h
      · rename_i s hs
        obtain rfl := Except.ok.inj h
        have hall := congrArg Prod.snd hs
        obtain ⟨hread, hopen⟩ := Session.of_andThen hall
        obtain ⟨es, hsteps, hes⟩ := Session.readLines_advances hp hread
        have hdraft : s.draft = (({} : Session).readLines false rest).1.draft := by
          rw [← congrArg (fun step => step.1.draft) hs]
          exact (congrArg (fun step => step.1.draft) hopen).trans Session.reportOpen_draft
        exact ⟨s.draft, es, hdraft ▸ hsteps, hes, rfl⟩
    · cases h

end Lifeline
