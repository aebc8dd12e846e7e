import Lifeline.Proofs.Readers
/-!
# Boxes that keep their headings

A box is headed by a colour and a label in one text, and nothing marks where the colour ends.
Both are read back as they were written, unless the colour is `transparent` in front of a
label that begins with a colour: so a label without a colour is written
(`Box.heading_survives`). No heading that was read is such a one.
-/

namespace Lifeline

open Text

/-- A colour has no blanks around it. -/
theorem Color.isTrimmed_of_isColor {cs : List Char} (h : isColor cs = true) : IsTrimmed cs := by
  have hne : cs ≠ [] := by
    rintro rfl
    cases h
  have hclear : Clear [] := by simp [Clear]
  have htoken : leadingToken cs = cs := by
    have := leadingToken_append h hclear
    rwa [List.append_nil] at this
  obtain ⟨-, -, htight⟩ := leadingToken_prefix cs
  exact ⟨hne, htoken ▸ htight⟩

namespace Box

/-- Whether the heading line of a box opens a box again, with the same colour and label. -/
def Survives (b : Box) : Prop :=
  LineKind.ofLine b.headingLine = .ok .boxStart ∧
    Statement.ofKind .boxStart b.headingLine = .ok (.boxStart { color := b.color, label := b.label })

/-- Whether the colour of a box would be taken for the word that only keeps its label whole. -/
def Shields (b : Box) : Prop :=
  ∃ c ∈ b.color, foldWord c.toList = Color.transparent.toList ∧ Color.labelStartsWithColor b.label = true

/-- The colour of a box, if it has one, is a colour, and its label has no blanks around it. -/
structure IsHeaded (b : Box) : Prop where
  color : ∀ c ∈ b.color, Color.isColor c.toList = true
  label : ∀ l ∈ b.label, IsTrimmed l.toList

variable {b : Box}

theorem IsHeaded.trimmed (h : b.IsHeaded) : b.Trimmed where
  label := h.label
  color := fun c hc => Color.isTrimmed_of_isColor (h.color c hc)

theorem IsHeaded.isPlain_iff (h : b.IsHeaded) : b.IsPlain ↔ ¬b.Shields := by
  constructor
  · rintro hplain ⟨c, hc, hshields⟩
    exact (hplain c hc).2 hshields
  · intro hkept c hc
    exact ⟨h.color c hc, fun hshields => hkept ⟨c, hc, hshields⟩⟩

/-- A colour that shields the label is not read back. -/
theorem IsHeaded.color_lost (h : b.IsHeaded) (hshields : b.Shields) : b.readHeading.color = none := by
  obtain ⟨c, hc, hfold, hlabel⟩ := hshields
  have hshown : b.shownColor = some c := by simp [shownColor, Option.mem_def.1 hc]
  rw [h.trimmed.readHeading_of_shown hshown (h.color c hc), if_pos ⟨hfold, hlabel⟩]

theorem IsHeaded.survives_iff (h : b.IsHeaded) : b.Survives ↔ ¬b.Shields := by
  have hread : b.Survives ↔ b.readHeading = { color := b.color, label := b.label } := by
    simp [Survives, h.trimmed.kind, h.trimmed.statement]
  rw [hread]
  constructor
  · intro heq hshields
    have hlost := h.color_lost hshields
    obtain ⟨c, hc, -⟩ := hshields
    rw [heq, Option.mem_def.1 hc] at hlost
    cases hlost
  · exact fun hkept => readHeading_eq h.trimmed (h.isPlain_iff.2 hkept)

/-- The box that a heading text is split into. -/
def ofHeading (text : String) : Box :=
  { color := (Color.splitHeading text.toList).color, label := (Color.splitHeading text.toList).label }

theorem isHeaded_ofHeading (text : String) : (ofHeading text).IsHeaded where
  color := fun c hc => ((Color.splitHeading_parts text.toList).2.2 c hc).1
  label := fun l hl => ((Color.splitHeading_parts text.toList).1 l hl).1

/-- The heading of a box is read back from its line, unless its colour only shields the label.
Whatever a text is split into never does that, so it is read back. -/
theorem heading_survives :
    (∀ b : Box, b.IsHeaded → (b.Survives ↔ ¬b.Shields)) ∧
      ∀ text, (ofHeading text).IsHeaded ∧ ¬(ofHeading text).Shields ∧ (ofHeading text).Survives := by
  refine ⟨fun b h => h.survives_iff, fun text => ?_⟩
  have h := isHeaded_ofHeading text
  have hkept : ¬(ofHeading text).Shields := h.isPlain_iff.1 (Color.splitHeading_parts text.toList).2.2
  exact ⟨h, hkept, h.survives_iff.2 hkept⟩

/-- A label that begins with a colour, a colour that holds blanks, and a colour that is lost. -/
theorem heading_survives_team :
    Survives { label := some "Red Team" } ∧ Survives { color := some "rgb(1, 2, 3)", label := some "Team" } ∧
      ¬Survives { color := some "Transparent", label := some "Red Team" } ∧
      ofHeading " hsl(0 0% 9%)Night shift " = { color := some "hsl(0 0% 9%)", label := some "Night shift" } ∧
      (ofHeading " hsl(0 0% 9%)Night shift ").Survives := by
  have hteam : ∀ l ∈ some "Team", IsTrimmed l.toList := by
    rintro _ ⟨⟩
    exact ⟨by decide, Solid.tight (by decide)⟩
  have hred : ∀ l ∈ some "Red Team", IsTrimmed l.toList := by
    rintro _ ⟨⟩
    exact ⟨by decide, by simp [Tight]; decide⟩
  have hcolor : ∀ c : String, Color.isColor c.toList = true → ∀ c' ∈ some c, Color.isColor c'.toList = true := by
    rintro c hc _ ⟨⟩
    exact hc
  refine ⟨?_, ?_, ?_, by decide +kernel, (heading_survives.2 _).2.2⟩
  · refine (heading_survives.1 _ ⟨by rintro _ ⟨⟩, hred⟩).2 ?_
    rintro ⟨_, ⟨⟩, -⟩
  · refine (heading_survives.1 _ ⟨hcolor _ (by decide), hteam⟩).2 ?_
    rintro ⟨c, hc, hfold, -⟩
    obtain rfl := Option.some.inj hc
    exact absurd hfold (by decide)
  · intro hs
    exact (heading_survives.1 _ ⟨hcolor _ (by decide +kernel), hred⟩).1 hs ⟨_, rfl, by decide, by decide +kernel⟩

end Box

end Lifeline
