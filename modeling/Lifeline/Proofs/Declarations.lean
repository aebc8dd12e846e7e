import Lifeline.Proofs.Seams
/-!
# Declarations that are read back

Every participant of a diagram is declared in its text, also one that its source only
mentions. A participant that the source declares is read from its declaration again: its
id was read from such a line. One that is only mentioned can have an id that no
declaration gives, with the word `as` between blanks, and is then read as another
participant with a label. These are the only ones (`Diagram.declaration_survives_iff`).
-/

namespace Lifeline

open Text

/-! ## The declaration of one participant -/

namespace Participant

variable {p : Participant}

/-- The declaration of a participant is classified as one, and read as it is. -/
def Survives (p : Participant) : Prop :=
  LineKind.ofLine p.declarationLine = .ok .participant ∧
    Statement.ofKind .participant p.declarationLine = .ok (p.declaration false)

instance (p : Participant) : Decidable p.Survives := inferInstanceAs (Decidable (_ ∧ _))

/-- A declaration survives if and only if nothing in the id looks like the beginning of a
label. -/
theorem survives_iff (hid : IsId p.id.toList) (hl : IsTidyLabel p.label) :
    p.Survives ↔ Unaliased p.id.toList (aliasTail p.label) := by
  have hkind := Declarable.ofLine_line hid hl
  constructor
  · rintro ⟨-, hread⟩
    have hplain : Plain p.declarationLine.toList := Declarable.line_toList hl ▸ Declarable.plain_words_rest hid hl
    obtain ⟨id, kind, label, created, hs, -, -, hfree⟩ := of_readDeclaration hplain hread
    cases hs
    exact hfree
  · intro hfree
    have hread := (Declarable.reads ⟨hid, hl, hfree⟩).ofLine
    rw [Statement.ofLine, hkind] at hread
    exact ⟨hkind, hread⟩

end Participant

/-! ## Participants that have been declared -/

/-- An id that has been declared holds nothing that looks like the beginning of a label. -/
def Card.Unaliased (id : String) (c : Card) : Prop :=
  c.explicit = true → Lifeline.Unaliased id.toList (aliasTail c.label)

theorem Card.Unaliased.after {id : String} {c : Card} (hc : c.Unaliased id) (hp : c.Plain) {e : Event} (he : e.IsRead) :
    (c.after id e).Unaliased id := by
  unfold Card.after
  split
  · rename_i kind label hd
    intro _
    have hread := he.unaliased hd
    cases label with
    | some l => exact hread
    | none =>
      -- The label is the one from before, which only a declaration can have given.
      cases hx : c.explicit with
      | true => exact hc hx
      | false =>
        have hnone : (c.declare kind none).label = none := (hp hx).2
        rw [hnone]
        exact hread
  · exact hc

theorem Draft.Steps.unaliased {d : Draft} {es : List Event} (hs : Steps {} es d) (he : ∀ e ∈ es, e.IsRead) (id : String) :
    (d.roster.card id).Unaliased id := by
  have hboth : (d.roster.card id).Plain ∧ (d.roster.card id).Unaliased id := by
    refine hs.keep (I := fun d => (d.roster.card id).Plain ∧ (d.roster.card id).Unaliased id) (fun he h hd => ?_) he
      ⟨fun _ => ⟨rfl, rfl⟩, nofun⟩
    rw [h.card]
    exact ⟨hd.1.after id _, hd.2.after hd.1 he⟩
  exact hboth.2

/-! ## The participants of a diagram that is read -/

/-- A participant of a diagram that is read from a source is read from its declaration as it
is if and only if its id does not hold the word `as` between blanks, and that is so for
every participant that the source declares. -/
theorem Diagram.declaration_survives_iff {source : String} {strict : Bool} {m : Diagram}
    (h : Diagram.read source strict = .ok m) {p : Participant} (hp : p ∈ m.participants) :
    (p.Survives ↔ holdsAs p.id.toList = false) ∧ (p.explicit = true → p.Survives) := by
  obtain ⟨d, es, hsteps, hes, hd, hid, he⟩ := Diagram.participant_of_read (Diagram.read_lenient h) hp
  have hlabel : IsTidyLabel p.label := he ▸ hd.labels p.id
  have hsurvives := Participant.survives_iff hid hlabel
  have hdeclared : p.explicit = true → p.Survives := fun hx => by
    have hcard := hsteps.unaliased hes p.id
    rw [he] at hx
    rw [hsurvives, he]
    exact hcard hx
  refine ⟨⟨fun hs => ?_, fun hfree => ?_⟩, hdeclared⟩
  · exact (hsurvives.1 hs).holdsAs_eq_false hid.tight (oneLine_append.2 ⟨hid.oneLine, oneLine_aliasTail hlabel⟩)
  · cases hx : p.explicit with
    | true => exact hdeclared hx
    | false =>
      have hnone : p.label = none := by
        rw [he] at hx ⊢
        exact (hd.wellFormed.plain p.id hx).2
      rw [hsurvives, hnone]
      exact unaliased_of_holdsAs hfree hid.oneLine

/-- A message to a participant that is only mentioned. -/
def wasMessage : Message := { source := { id := "A" }, target := { id := "was as" }, order := 0 }

/-- A declared actor with the label `as`, and a participant of which the last word is that. -/
def wasDiagram : Diagram :=
  { wasMessage.alone with
    participants := [{ id := "A", kind := .actor, label := some "as" }, { id := "was as", explicit := false }] }

/-- The word does no harm in a label or at the end of an id. -/
theorem last_word_survives : Diagram.read "sequenceDiagram\nactor A as as\nA->>was as\n" true = .ok wasDiagram ∧
    ∀ p ∈ wasDiagram.participants, p.Survives := by
  have hread : Diagram.read "sequenceDiagram\nactor A as as\nA->>was as\n" true = .ok wasDiagram := by decide +kernel
  have hfree : ∀ p ∈ wasDiagram.participants, holdsAs p.id.toList = false := by decide
  exact ⟨hread, fun p hp => (Diagram.declaration_survives_iff hread hp).1.2 (hfree p hp)⟩

/-- A message from a participant that no declaration gives. -/
def asMessage : Message := { source := { id := "A as B" }, target := { id := "C" }, order := 0 }

/-- A participant that is mentioned with the word `as` inside its id is declared as another
one with a label. -/
theorem inner_word_is_lost : ∃ source m p, Diagram.read source false = .ok m ∧ m.diagnostics = [] ∧
    p ∈ m.participants ∧ ¬p.Survives :=
  ⟨"sequenceDiagram\nA as B->>C\n", asMessage.alone, { id := "A as B", explicit := false }, by decide +kernel, rfl,
    List.mem_cons_self, by decide +kernel⟩

end Lifeline
