import Lifeline.Diagram.Basic
/-!
# The participants of a diagram in order

The first mention of an id fixes its place. A declaration of an id known before
updates its kind and, if it gives one, its label.
-/

namespace Lifeline

/-- With distinct keys, looking for the key of a member finds that member. Participants are
told apart by their ids and blocks by their starts. -/
theorem find?_key {α κ : Type} [BEq κ] [LawfulBEq κ] (key : α → κ) {l : List α} (hn : (l.map key).Nodup)
    {a : α} (ha : a ∈ l) : l.find? (fun x => key x == key a) = some a := by
  induction l with
  | nil => cases ha
  | cons c cs ih =>
    simp only [List.map_cons, List.nodup_cons] at hn
    rcases List.mem_cons.1 ha with rfl | ha
    · simp
    · have hne : (key c == key a) = false := by
        rw [beq_eq_false_iff_ne]
        exact fun he => hn.1 (he ▸ List.mem_map_of_mem ha)
      rw [List.find?_cons, hne]
      exact ih hn.2 ha

/-- Participants in the order of their first mention. -/
structure Roster where
  participants : List Participant := []
  deriving DecidableEq, Repr

namespace Roster

/-- The ids in order. -/
def ids (r : Roster) : List String := r.participants.map Participant.id

/-- The participant of an id. -/
def get? (r : Roster) (id : String) : Option Participant := r.participants.find? fun p => p.id == id

/-- Whether an id is known. -/
def contains (r : Roster) (id : String) : Bool := r.participants.any fun p => p.id == id

/-- The roster with a participant of a new id at its end. -/
def add (r : Roster) (p : Participant) : Roster := ⟨r.participants ++ [p]⟩

/-- The roster with the participant of an id changed. -/
def modify (r : Roster) (id : String) (change : Participant → Participant) : Roster :=
  ⟨r.participants.map fun p => if p.id == id then change p else p⟩

/-- What a declaration changes about a participant. -/
def redeclare (kind : ParticipantKind) (label : Option String) (explicit : Bool) (p : Participant) :
    Participant :=
  { p with kind, label := label.or p.label, explicit := p.explicit || explicit }

/-- Declares a participant, which is refused if its id is empty. -/
def declare? (r : Roster) (id : String) (kind : ParticipantKind) (label : Option String)
    (explicit : Bool) : Option Roster :=
  if id.isEmpty then none
  else if r.contains id then some (r.modify id (redeclare kind label explicit))
  else some (r.add { id, kind, label, explicit })

/-- Mentions a participant, which adds it as an implicit one if its id is unknown and
is refused if its id is empty. -/
def mention? (r : Roster) (id : String) : Option Roster :=
  if r.contains id then some r
  else if id.isEmpty then none
  else some (r.add (.implicit id))

@[simp] theorem ids_add (r : Roster) (p : Participant) : (r.add p).ids = r.ids ++ [p.id] := by
  simp [ids, add]

theorem ids_modify (r : Roster) (id : String) {change : Participant → Participant}
    (h : ∀ p, (change p).id = p.id) : (r.modify id change).ids = r.ids := by
  simp only [ids, modify, List.map_map]
  apply List.map_congr_left
  intro p _
  by_cases hp : p.id = id <;> simp [hp, h]

theorem contains_eq (r : Roster) (id : String) : r.contains id = r.ids.contains id := by
  rw [Bool.eq_iff_iff]
  simp [contains, ids]

end Roster

end Lifeline
