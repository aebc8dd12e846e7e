import Lifeline.Proofs.Cards
import Lifeline.Proofs.History
/-!
# What a timeline names

Every event adds the ids that it names to the timeline or declares them, and the timeline
holds a creation for every event that creates.
-/

namespace Lifeline

open History

/-- The ids that an item of a timeline names. -/
def Statement.names : Statement → List String
  | .message m => [m.source.id, m.target.id]
  | .note n => n.targets
  | .directive x => [x.id]
  | _ => []

/-- Whether an item creates the participant of an id. -/
def Statement.createsId (id : String) : Statement → Bool
  | .directive x => x.kind == .create && x.id == id
  | _ => false

namespace Event

/-- The ids that an event puts into the timeline. -/
def timed : Event → List String
  | .create id _ _ | .destroy id | .activation id _ => [id]
  | .message m => [m.source.id, m.target.id]
  | .note n => n.targets
  | _ => []

/-- Whether an event creates the participant of an id. -/
def creates (id : String) : Event → Bool
  | .create i _ _ => i == id
  | _ => false

theorem timed_sub_names {e : Event} {id : String} (h : id ∈ e.timed) : id ∈ e.names := by
  cases e <;> first | exact h | cases h

end Event

namespace Draft

/-- A view of items that the change of an item is not seen in. -/
theorem map_changeFirst_of {α : Type} {view : Statement → α} {p : Statement → Bool} {change : Statement → Statement}
    {past : List Statement} (h : ∀ item ∈ past, p item = true → view (change item) = view item) :
    (changeFirst p change past).map view = past.map view := by
  induction past with
  | nil => rfl
  | cons item older ih =>
    unfold changeFirst
    split
    · rename_i hp
      simp [h item (by simp) hp]
    · simp [ih fun x hx => h x (List.mem_cons_of_mem item hx)]

/-- A view of items that a longer label does not change. -/
theorem map_changeFirst {α : Type} {view : Statement → α} (hv : ∀ text item, view (growItem text item) = view item)
    (p : Statement → Bool) (text : String) (past : List Statement) :
    (changeFirst p (growItem text) past).map view = past.map view :=
  map_changeFirst_of fun item _ _ => hv text item

/-- What holds of all items, and of what an item is changed into, holds of all items after. -/
theorem forall_changeFirst {P : Statement → Prop} {p : Statement → Bool} {change : Statement → Statement}
    {past : List Statement} (h : ∀ item ∈ past, P item) (hc : ∀ item ∈ past, p item = true → P (change item)) :
    ∀ item ∈ changeFirst p change past, P item := by
  induction past with
  | nil => exact h
  | cons item older ih =>
    unfold changeFirst
    split
    · rename_i hp
      intro x hx
      rcases List.mem_cons.1 hx with rfl | hx
      · exact hc item (by simp) hp
      · exact h x (List.mem_cons_of_mem item hx)
    · intro x hx
      rcases List.mem_cons.1 hx with rfl | hx
      · exact h x (by simp)
      · exact ih (fun y hy => h y (List.mem_cons_of_mem item hy)) (fun y hy => hc y (List.mem_cons_of_mem item hy)) x hx

/-- What holds of all items, and of what they are changed into, holds of all items after. -/
theorem forall_changeAt {P : Statement → Prop} {place : Nat} {change : Statement → Statement} {past : List Statement}
    (h : ∀ item ∈ past, P item) (hc : ∀ item ∈ past, P (change item)) : ∀ item ∈ changeAt place change past, P item := by
  induction past with
  | nil => exact h
  | cons item older ih =>
    simp only [List.forall_mem_cons] at h hc
    unfold changeAt
    split
    · exact List.forall_mem_cons.2 ⟨hc.1, h.2⟩
    · exact List.forall_mem_cons.2 ⟨h.1, ih h.2 hc.2⟩

theorem fold?_ids {m m' : Message} {id : String} {activate : Bool} (h : fold? m id activate = some m') :
    m'.source.id = m.source.id ∧ m'.target.id = m.target.id ∧ (id = m.source.id ∨ id = m.target.id) := by
  unfold fold? mark at h
  split at h
  · rename_i hc
    simp only [Bool.and_eq_true, beq_iff_eq] at hc
    cases h
    exact ⟨rfl, by dsimp only; split <;> rfl, .inr hc.1.symm⟩
  · split at h
    · rename_i hc
      simp only [Bool.and_eq_true, beq_iff_eq] at hc
      cases h
      exact ⟨by dsimp only; split <;> rfl, rfl, .inl hc.1.symm⟩
    · cases h

/-- The timeline names what it named before and what the event puts into it. -/
theorem Step.names {d d' : Draft} {e : Event} (h : Step d e d') (id : String) :
    id ∈ d'.past.flatMap Statement.names ↔ id ∈ d.past.flatMap Statement.names ∨ id ∈ e.timed := by
  cases h with
  | declare => simp [Event.timed]
  | message =>
    rw [past_settle, List.flatMap_cons, List.mem_append]
    exact or_comm
  | fold h hp hm =>
    obtain ⟨hs, ht, hi⟩ := fold?_ids hm
    simp only [hp, List.flatMap_cons, Statement.names, hs, ht, Event.timed, List.mem_append, List.mem_cons,
      List.not_mem_nil, or_false]
    refine ⟨.inl, fun h => h.elim (fun h => h) ?_⟩
    rintro rfl
    exact .inl hi
  | extend =>
    have hv : ∀ label item, (relabelItem label item).names = item.names := fun label item => by cases item <;> rfl
    simp only [List.flatMap, map_changeAt (hv _), Event.timed, List.not_mem_nil, or_false]
  | create | destroyAtLast | destroyLater | note | activation =>
    simp [Event.timed, Statement.names, directive, placedNote, or_comm]
  | openBlock | openBranch | closeBlock => simp [Event.timed, Statement.names]
  | _ => simp [Event.timed]

/-- Every creation is an item of the timeline. -/
theorem Step.creations {d d' : Draft} {e : Event} (h : Step d e d') (id : String) :
    d'.past.countP (Statement.createsId id) =
      d.past.countP (Statement.createsId id) + if e.creates id then 1 else 0 := by
  cases h with
  | declare => simp [Event.creates]
  | message =>
    rw [past_settle]
    simp [Event.creates, Statement.createsId]
  | fold h hp hm => simp [hp, Event.creates, Statement.createsId]
  | @extend text frame =>
    have hv : ∀ label item, (relabelItem label item).createsId id = item.createsId id := fun label item => by
      cases item <;> rfl
    have := congrArg (List.countP fun b => b) (map_changeAt (hv (d.grownLabel frame.content text))
      (d.currentBranch frame.content).startOrder.toNat d.past)
    simpa [List.countP_map, Function.comp_def, Event.creates] using this
  | @create i => simp [Event.creates, Statement.createsId, directive, List.countP_cons]
  | @activation i activate =>
    have : (if activate = true then DirectiveKind.activate else .deactivate) ≠ .create := by cases activate <;> simp
    simp [Event.creates, Statement.createsId, directive, this]
  | _ => simp [Event.creates, Statement.createsId, directive]

/-- The timeline creates a participant as often as the events do. -/
theorem Steps.creations {d d' : Draft} {es : List Event} (hs : Steps d es d') (id : String) :
    d'.past.countP (Statement.createsId id) =
      d.past.countP (Statement.createsId id) + es.countP (Event.creates id) := by
  induction hs with
  | nil => rfl
  | cons h _ ih =>
    rw [ih, h.creations, List.countP_cons]
    omega

end Draft

end Lifeline
