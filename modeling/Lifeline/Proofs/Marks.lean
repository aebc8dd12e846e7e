import Lifeline.Diagram.Roster
import Lifeline.Proofs.Cards
import Lifeline.Proofs.History
/-!
# Orders of creation and destruction

When a participant is created and destroyed, and what still waits for it, can be told
from the timeline alone (`Draft.marked_of_steps`).
-/

namespace Lifeline

/-- When a participant is created and destroyed, and the directives that wait for it. -/
structure Marks where
  created : Option Int := none
  destroyed : Option Int := none
  awaitingCreate : Option Int := none
  awaitingDestroy : Option Int := none

namespace Marks

/-- A message at the given order meets what waits. -/
def meet (k : Marks) (order : Int) : Marks where
  created := if k.awaitingCreate.isSome then some order else k.created
  destroyed := if k.awaitingDestroy.isSome then some order else k.destroyed

/-- A message ends in a cross at the participant. -/
def crossOut (k : Marks) (order : Int) : Marks := { k with destroyed := k.destroyed.or (some order) }

/-- The marks of a participant after a message. -/
def message (id : String) (m : Message) (k : Marks) : Marks :=
  let k := if m.source.id = id then k.meet m.order else k
  let k := if m.target.id = id then k.meet m.order else k
  if m.arrow.isCross = true ∧ m.target.id = id then k.crossOut m.order else k

/-- The marks of a participant after its destruction, right after the given item. -/
def destroy (id : String) (last : Option Statement) (order : Int) (k : Marks) : Marks :=
  match last with
  | some (.message m) =>
    if m.involves id then { k with destroyed := some m.order } else { k with awaitingDestroy := some order }
  | _ => { k with awaitingDestroy := some order }

/-- Right after a message of the participant, its destruction takes the order of the message. -/
theorem destroy_atLast {id : String} {m : Message} {past older : List Statement} (hp : past = .message m :: older)
    (hm : m.involves id = true) (order : Int) (k : Marks) :
    destroy id past.head? order k = { k with destroyed := some m.order } := by
  simp [hp, destroy, hm]

/-- Any other destruction waits for a message. -/
theorem destroy_later {id : String} {past : List Statement}
    (hp : ∀ m older, past = .message m :: older → m.involves id = false) (order : Int) (k : Marks) :
    destroy id past.head? order k = { k with awaitingDestroy := some order } := by
  cases past with
  | nil => rfl
  | cons item older =>
    cases item with
    | message m => simp [destroy, hp m older rfl]
    | _ => rfl

/-- The marks of a participant after a timeline, given latest first. -/
def ofPast (id : String) : List Statement → Marks
  | [] => {}
  | .message m :: older => (ofPast id older).message id m
  | .directive x :: older =>
    if x.id = id then
      match x.kind with
      | .create => { ofPast id older with awaitingCreate := some x.order }
      | .destroy => (ofPast id older).destroy id older.head? x.order
      | _ => ofPast id older
    else ofPast id older
  | _ :: older => ofPast id older

theorem ofPast_outline (id : String) (past : List Statement) :
    ofPast id (past.map History.outline) = ofPast id past := by
  induction past with
  | nil => rfl
  | cons item older ih =>
    cases item with
    | message m => simp only [List.map_cons, History.outline, ofPast, ih]; rfl
    | directive x =>
      simp only [List.map_cons, History.outline, ofPast, ih]
      split
      · cases x.kind with
        | destroy =>
          cases older with
          | nil => rfl
          | cons item older => cases item <;> rfl
        | _ => rfl
      · rfl
    | _ => exact ih

/-- Timelines of one outline leave the same marks. -/
theorem ofPast_congr {past past' : List Statement} (h : past'.map History.outline = past.map History.outline)
    (id : String) : ofPast id past' = ofPast id past := by
  rw [← ofPast_outline, h, ofPast_outline]

end Marks

namespace Waiting

theorem get?_clear (w : Waiting) (id i : String) : (w.clear id).get? i = if i = id then none else w.get? i := by
  induction w with
  | nil => simp [clear, get?]
  | cons e w ih =>
    obtain ⟨j, order⟩ := e
    unfold clear get? at ih ⊢
    by_cases hj : j = id
    · subst hj
      by_cases hi : i = j
      · subst hi
        simpa using ih
      · simpa [hi, List.lookup_cons, beq_eq_false_iff_ne.2 hi] using ih
    · by_cases hi : i = j
      · subst hi
        simp [hj]
      · simpa [hj, hi, List.lookup_cons, beq_eq_false_iff_ne.2 hi] using ih

theorem get?_set (w : Waiting) (id i : String) (order : Int) :
    (w.set id order).get? i = if i = id then some order else w.get? i := by
  have := get?_clear w id i
  unfold set get? at *
  by_cases hi : i = id
  · simp [hi]
  · simp [hi, List.lookup_cons, this, beq_eq_false_iff_ne.2 hi]

end Waiting

namespace Roster

variable {r r' : Roster} {id : String}

/-- When the participant of an id is created and destroyed. -/
def orders (r : Roster) (id : String) : Option Int × Option Int :=
  ((r.get? id).bind Participant.createdAt, (r.get? id).bind Participant.destroyedAt)

theorem orders_mention? (h : r.mention? id = some r') (i : String) : r'.orders i = r.orders i := by
  rcases mention?_eq_some h with ⟨-, rfl⟩ | ⟨hc, -, rfl⟩
  · rfl
  · unfold orders
    rw [get?_add]
    by_cases hi : id = i
    · subst hi
      simp [get?_eq_none hc, Participant.implicit]
    · simp [Participant.implicit, hi]

theorem orders_mentionAll? {ids : List String} (h : r.mentionAll? ids = some r') (i : String) :
    r'.orders i = r.orders i := by
  induction ids generalizing r with
  | nil => cases h; rfl
  | cons id ids ih =>
    obtain ⟨r1, h1, h2⟩ := Option.bind_eq_some_iff.1 h
    rw [ih h2, orders_mention? h1]

/-- A change that keeps the orders of participants. -/
theorem orders_modify {change : Participant → Participant} (h : ∀ p, (change p).id = p.id)
    (ho : ∀ p, (change p).createdAt = p.createdAt ∧ (change p).destroyedAt = p.destroyedAt) (id i : String) :
    (r.modify id change).orders i = r.orders i := by
  unfold orders
  rw [get?_modify h]
  split
  · cases r.get? i <;> simp [ho]
  · rfl

/-- The orders after a change of a participant that is there, where `f` is what the change does
to the orders. -/
theorem orders_change {change : Participant → Participant} (h : ∀ p, (change p).id = p.id)
    {f : Option Int × Option Int → Option Int × Option Int}
    (ho : ∀ p, ((change p).createdAt, (change p).destroyedAt) = f (p.createdAt, p.destroyedAt))
    (hc : r.contains id = true) (i : String) :
    (r.modify id change).orders i = if id = i then f (r.orders i) else r.orders i := by
  unfold orders
  rw [get?_modify h]
  split
  · rename_i hi
    obtain ⟨p, hp⟩ := get?_isSome hc
    simp [← hi, hp, ← ho]
  · rfl

theorem orders_declare? {kind : ParticipantKind} {label : Option String}
    (h : r.declare? id kind label true = some r') (i : String) : r'.orders i = r.orders i := by
  unfold declare? at h
  split at h
  · cases h
  · split at h
    · cases h
      exact orders_modify (id_redeclare kind label true) (fun _ => ⟨rfl, rfl⟩) id i
    · rename_i hc
      cases h
      unfold orders
      rw [get?_add]
      by_cases hi : id = i
      · subst hi
        simp [get?_eq_none (Bool.eq_false_iff.2 hc)]
      · simp [hi]

theorem contains_mentionAll? {ids : List String} (h : r.mentionAll? ids = some r') {i : String}
    (hi : r.contains i = true ∨ i ∈ ids) : r'.contains i = true := by
  simpa [contains_eq, ids_mentionAll? h, mem_foldl_addName] using hi

end Roster

namespace Draft

/-- The marks of a participant. -/
def marks (d : Draft) (id : String) : Marks where
  created := (d.roster.orders id).1
  destroyed := (d.roster.orders id).2
  awaitingCreate := d.awaitingCreate.get? id
  awaitingDestroy := d.awaitingDestroy.get? id

/-- The marks of all participants are those that the timeline leaves. -/
def Marked (d : Draft) : Prop := ∀ id, d.marks id = Marks.ofPast id d.past

theorem marks_meet {d : Draft} {id : String} (hc : d.roster.contains id = true) (order : Int) (i : String) :
    (d.meet order id).marks i = if id = i then (d.marks i).meet order else d.marks i := by
  unfold marks meet
  dsimp only
  rw [Waiting.get?_clear, Waiting.get?_clear, Roster.orders_change (f := fun o =>
    (if (d.awaitingCreate.get? id).isSome then some order else o.1,
      if (d.awaitingDestroy.get? id).isSome then some order else o.2)) (by intro; rfl) (by intro; rfl) hc]
  by_cases hi : id = i
  · subst hi
    simp [Marks.meet]
  · simp [hi, Ne.symm hi]

theorem contains_meet {d : Draft} {i : String} (hc : d.roster.contains i = true) (order : Int) (id : String) :
    (d.meet order id).roster.contains i = true := by
  rw [Roster.contains_eq, ids_meet, ← Roster.contains_eq, hc]

theorem marks_crossOut {d : Draft} {m : Message} (hc : d.roster.contains m.target.id = true) (i : String) :
    (d.crossOut m).marks i =
      if m.arrow.isCross = true ∧ m.target.id = i then (d.marks i).crossOut m.order else d.marks i := by
  unfold crossOut
  cases hx : m.arrow.isCross with
  | false => simp
  | true =>
    unfold marks
    simp only [if_true, true_and]
    rw [Roster.orders_change (f := fun o => (o.1, o.2.or (some m.order))) (by intro; rfl) (by intro; rfl) hc]
    split <;> rfl

theorem marks_settle {d : Draft} {m : Message} (hs : d.roster.contains m.source.id = true)
    (ht : d.roster.contains m.target.id = true) (i : String) : (d.settle m).marks i = (d.marks i).message i m := by
  unfold settle Marks.message
  rw [marks_crossOut (contains_meet (contains_meet ht _ _) _ _), marks_meet (contains_meet ht _ _), marks_meet hs]

/-- A step after which participants keep their orders and nothing new waits. -/
theorem Marked.keep {d d' : Draft} (hm : d.Marked) {id : String} (ho : d'.roster.orders id = d.roster.orders id)
    (hc : d'.awaitingCreate = d.awaitingCreate) (hd : d'.awaitingDestroy = d.awaitingDestroy)
    (hp : Marks.ofPast id d'.past = Marks.ofPast id d.past) : d'.marks id = Marks.ofPast id d'.past := by
  rw [hp, ← hm id]
  unfold marks
  rw [ho, hc, hd]

theorem marks_joinBox (d : Draft) (i id : String) : (d.joinBox i).marks id = d.marks id := by
  obtain ⟨boxes, h⟩ := d.joinBox_eq i
  rw [h]
  rfl

theorem Step.marked {d d' : Draft} {e : Event} (h : Step d e d') (hm : d.Marked) : d'.Marked := by
  intro id
  have hid := hm id
  -- Only messages, creations and destructions change marks; the others keep orders and waits.
  cases h with
  | mention h => exact hm.keep (Roster.orders_mention? h id) rfl rfl rfl
  | declare h =>
    rw [marks_joinBox, past_joinBox]
    exact hm.keep (Roster.orders_declare? h id) rfl rfl rfl
  | @create i _ _ r h =>
    have ho := Roster.orders_declare? h id
    simp only [Marks.ofPast, directive, ← hid, marks, ho, Waiting.get?_set]
    by_cases hi : i = id
    · simp [hi]
    · simp [hi, Ne.symm hi]
  | link h =>
    refine hm.keep ((Roster.orders_modify ?_ ?_ _ _).trans (Roster.orders_mention? h id)) rfl rfl rfl
    · exact fun _ => rfl
    · exact fun _ => ⟨rfl, rfl⟩
  | message hv h =>
    have hc := fun i hi => Roster.contains_mentionAll? h (i := i) (.inr hi)
    have ho := Roster.orders_mentionAll? h id
    rw [marks_settle (hc _ (by simp [placed])) (hc _ (by simp [placed])), past_settle, Marks.ofPast, ← hid]
    simp only [marks, ho]
  | note hv h => exact hm.keep (Roster.orders_mentionAll? h id) rfl rfl rfl
  | fold h hp hf =>
    refine hm.keep (Roster.orders_mention? h id) rfl rfl (Marks.ofPast_congr ?_ id)
    simp [hp, History.outline_fold hf]
  | @activation i activate _ h _ =>
    refine hm.keep (Roster.orders_mention? h id) rfl rfl ?_
    cases activate <;> simp [Marks.ofPast, directive]
  | @destroyAtLast i r m older h hp hi =>
    have ho := Roster.orders_mention? h id
    have hnew : (r.modify i fun p => { p with destroyedAt := some m.order }).orders id =
        if i = id then ((r.orders id).1, some m.order) else r.orders id :=
      Roster.orders_change (f := fun o => (o.1, some m.order)) (by intro; rfl) (by intro; rfl)
        (Roster.contains_of_mention? h) id
    simp only [Marks.ofPast, directive, marks, hnew, ho]
    split
    · rename_i he
      rw [← he, Marks.destroy_atLast hp hi, he, ← hid]
      rfl
    · exact hid
  | @destroyLater i r h hp =>
    have ho := Roster.orders_mention? h id
    simp only [Marks.ofPast, directive, marks, ho, Waiting.get?_set, eq_comm (a := id)]
    split
    · rename_i he
      rw [← he, Marks.destroy_later hp, he, ← hid]
      rfl
    · exact hid
  | extend =>
    exact hm.keep rfl rfl rfl (Marks.ofPast_congr (map_changeAt (History.outline_relabelItem _) _ _) id)
  | _ => exact hm.keep rfl rfl rfl rfl

/-- In every draft that events lead to, the timeline tells the marks of all participants. -/
theorem marked_of_steps {d : Draft} {es : List Event} (h : Steps {} es d) : d.Marked :=
  h.keep (P := fun _ => True) (fun _ => Step.marked) (fun _ _ => trivial) fun _ => rfl

end Draft

namespace Diagram

/-- A participant with the given id, card and marks, where what still waits takes the order
of its directive. -/
def participantOf (id : String) (c : Card) (k : Marks) : Participant where
  id := id
  kind := c.kind
  label := c.label
  explicit := c.explicit
  createdAt := k.created.or k.awaitingCreate
  destroyedAt := k.destroyed.or k.awaitingDestroy
  links := c.links

/-- The participants of a diagram that is built from a draft. -/
theorem build_participants {d : Draft} (hn : d.roster.ids.Nodup) (hm : d.Marked) :
    d.build.participants =
      d.roster.ids.map fun id => participantOf id (d.roster.card id) (Marks.ofPast id d.past) := by
  simp only [Draft.build, Roster.ids, List.map_map]
  refine List.map_congr_left fun p hp => ?_
  have hget : d.roster.get? p.id = some p := find?_key Participant.id hn hp
  simp [participantOf, ← hm p.id, Draft.marks, Roster.orders, Roster.card, hget, Participant.card]

end Diagram

end Lifeline
