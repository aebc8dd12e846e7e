import Lifeline.Proofs.Steps
/-!
# What events say about a participant

The participants of a draft can be told from the events behind it: which there are, in
the order of their first mention, and what is known about each. A declaration settles
kind and label, and every link adds one.
-/

namespace Lifeline

/-- What is known about a participant apart from its orders. -/
structure Card where
  kind : ParticipantKind := .participant
  label : Option String := none
  explicit : Bool := false
  links : List Link := []

/-- What is known about a participant. -/
def Participant.card (p : Participant) : Card := ⟨p.kind, p.label, p.explicit, p.links⟩

namespace Event

/-- The participants that an event names. -/
def names : Event → List String
  | .mention id | .declare id _ _ | .create id _ _ | .destroy id | .link id _ | .activation id _ => [id]
  | .message m => [m.source.id, m.target.id]
  | .note n => n.targets
  | _ => []

/-- The kind and the label that an event declares for a participant. -/
def declaration? (id : String) : Event → Option (ParticipantKind × Option String)
  | .declare i kind label | .create i kind label => if i = id then some (kind, label) else none
  | _ => none

/-- The link that an event attaches to a participant. -/
def link? (id : String) : Event → Option Link
  | .link i l => if i = id then some l.trimmed else none
  | _ => none

end Event

namespace Card

/-- What is known after a declaration. -/
def declare (c : Card) (kind : ParticipantKind) (label : Option String) : Card :=
  { c with kind, label := label.or c.label, explicit := true }

/-- What is known about a participant after an event. -/
def after (id : String) (c : Card) (e : Event) : Card :=
  match e.declaration? id with
  | some (kind, label) => c.declare kind label
  | none => { c with links := c.links ++ (e.link? id).toList }

end Card

namespace Roster

variable {r r' : Roster} {id : String}

/-- What is known about the participant of an id. -/
def card (r : Roster) (id : String) : Card := ((r.get? id).map Participant.card).getD {}

theorem get?_add (r : Roster) (p : Participant) (i : String) :
    (r.add p).get? i = (r.get? i).or (if p.id = i then some p else none) := by
  simp only [get?, add, List.find?_append, List.find?_singleton, beq_iff_eq]

theorem get?_modify {change : Participant → Participant} (h : ∀ p, (change p).id = p.id) (r : Roster)
    (id i : String) : (r.modify id change).get? i = if id = i then (r.get? i).map change else r.get? i := by
  have hid : ∀ p : Participant, (if p.id == id then change p else p).id = p.id := fun p => by split <;> simp [h]
  have hf : ((fun p : Participant => p.id == i) ∘ fun p => if p.id == id then change p else p) = fun p => p.id == i := by
    funext p
    simp only [Function.comp_apply, hid]
  unfold get? modify
  rw [List.find?_map, hf]
  cases hp : r.participants.find? fun p => p.id == i with
  | none => simp
  | some p =>
    have : p.id = i := by simpa using List.find?_some hp
    by_cases hi : id = i
    · simp [this, hi]
    · simp [this, hi, Ne.symm hi]

theorem get?_eq_none (h : r.contains id = false) : r.get? id = none := by
  simpa [get?, contains] using h

theorem get?_isSome (h : r.contains id = true) : ∃ p, r.get? id = some p := by
  cases hp : r.get? id with
  | some p => exact ⟨p, rfl⟩
  | none =>
    obtain ⟨p, hm, hid⟩ := List.any_eq_true.1 h
    exact absurd hid (List.find?_eq_none.1 hp p hm)

/-- A change that keeps what is known about participants. -/
theorem card_modify {change : Participant → Participant} (h : ∀ p, (change p).id = p.id)
    (hc : ∀ p, (change p).card = p.card) (id i : String) : (r.modify id change).card i = r.card i := by
  unfold card
  rw [get?_modify h]
  split
  · cases r.get? i <;> simp [hc]
  · rfl

theorem card_modify_link (h : r.contains id = true) (l : Link) (i : String) :
    (r.modify id fun p => { p with links := p.links ++ [l] }).card i =
      if id = i then { r.card i with links := (r.card i).links ++ [l] } else r.card i := by
  unfold card
  rw [get?_modify (by intro; rfl)]
  split
  · rename_i hi
    obtain ⟨p, hp⟩ := get?_isSome (hi ▸ h)
    simp [hp, Participant.card]
  · rfl

theorem card_mention? (h : r.mention? id = some r') (i : String) : r'.card i = r.card i := by
  rcases mention?_eq_some h with ⟨-, rfl⟩ | ⟨hc, -, rfl⟩
  · rfl
  · unfold card
    rw [get?_add]
    by_cases hi : id = i
    · subst hi
      simp [get?_eq_none hc, Participant.implicit, Participant.card]
    · simp [Participant.implicit, hi]

theorem card_mentionAll? {ids : List String} (h : r.mentionAll? ids = some r') (i : String) : r'.card i = r.card i := by
  induction ids generalizing r with
  | nil => cases h; rfl
  | cons id ids ih =>
    obtain ⟨r1, h1, h2⟩ := Option.bind_eq_some_iff.1 h
    rw [ih h2, card_mention? h1]

theorem id_redeclare (kind : ParticipantKind) (label : Option String) (explicit : Bool) (p : Participant) :
    (redeclare kind label explicit p).id = p.id := rfl

theorem card_declare? {kind : ParticipantKind} {label : Option String} (h : r.declare? id kind label true = some r')
    (i : String) : r'.card i = if id = i then (r.card i).declare kind label else r.card i := by
  unfold declare? at h
  split at h
  · cases h
  · split at h
    · rename_i hc
      cases h
      unfold card
      rw [get?_modify (fun p => id_redeclare kind label true p)]
      split
      · rename_i hi
        subst hi
        obtain ⟨p, hp⟩ := get?_isSome hc
        simp [hp, redeclare, Participant.card, Card.declare]
      · rfl
    · rename_i hc
      cases h
      unfold card
      rw [get?_add]
      split
      · rename_i hi
        subst hi
        simp [get?_eq_none (Bool.eq_false_iff.2 hc), Participant.card, Card.declare]
      · simp

/-! ## Names -/

/-- Ids with another at their end, unless it is there already. -/
def addName (ids : List String) (id : String) : List String := if id ∈ ids then ids else ids ++ [id]

theorem ids_mention? (h : r.mention? id = some r') : r'.ids = addName r.ids id := by
  unfold addName
  rcases mention?_eq_some h with ⟨hc, rfl⟩ | ⟨hc, -, rfl⟩
  · rw [if_pos (by simpa [contains_eq] using hc)]
  · rw [if_neg (by simpa [contains_eq] using hc), ids_add]
    rfl

theorem ids_mentionAll? {ids : List String} (h : r.mentionAll? ids = some r') : r'.ids = ids.foldl addName r.ids := by
  induction ids generalizing r with
  | nil => cases h; rfl
  | cons id ids ih =>
    obtain ⟨r1, h1, h2⟩ := Option.bind_eq_some_iff.1 h
    rw [ih h2, ids_mention? h1, List.foldl_cons]

theorem ids_declare? {kind : ParticipantKind} {label : Option String} (h : r.declare? id kind label true = some r') :
    r'.ids = addName r.ids id := by
  unfold declare? at h
  unfold addName
  split at h
  · cases h
  · split at h
    · rename_i hc
      cases h
      rw [if_pos (by simpa [contains_eq] using hc), ids_modify _ _ (id_redeclare kind label true)]
    · rename_i hc
      cases h
      rw [if_neg (by simpa [contains_eq] using hc), ids_add]

theorem mem_addName {ids : List String} {i : String} : i ∈ addName ids id ↔ i ∈ ids ∨ i = id := by
  unfold addName
  split <;> simp_all

theorem nodup_addName {ids : List String} (h : ids.Nodup) : (addName ids id).Nodup := by
  unfold addName
  split
  · exact h
  · rename_i hm
    exact List.nodup_append.2 ⟨h, by simp, fun a ha b hb => by
      rw [List.mem_singleton.1 hb]
      rintro rfl
      exact hm ha⟩

theorem mem_foldl_addName {names ids : List String} {i : String} : i ∈ names.foldl addName ids ↔ i ∈ ids ∨ i ∈ names := by
  induction names generalizing ids with
  | nil => simp
  | cons id names ih => simp [ih, mem_addName, or_assoc]

theorem nodup_foldl_addName {names ids : List String} (h : ids.Nodup) : (names.foldl addName ids).Nodup := by
  induction names generalizing ids with
  | nil => exact h
  | cons id names ih => exact ih (nodup_addName h)

/-- New names stand at the end. -/
theorem foldl_addName_of_nodup {names ids : List String} (h : (ids ++ names).Nodup) : names.foldl addName ids = ids ++ names := by
  induction names generalizing ids with
  | nil => simp
  | cons id names ih =>
    have hnew : id ∉ ids := fun hm => (List.nodup_append.1 h).2.2 id hm id List.mem_cons_self rfl
    rw [List.append_cons] at h ⊢
    rw [List.foldl_cons, addName, if_neg hnew, ih h]

theorem prefix_foldl_addName (names ids : List String) : ids <+: names.foldl addName ids := by
  induction names generalizing ids with
  | nil => exact List.prefix_rfl
  | cons id names ih =>
    have hfirst : ids <+: addName ids id := by
      unfold addName
      split
      · exact List.prefix_rfl
      · exact List.prefix_append ids [id]
    exact hfirst.trans (ih _)

theorem foldl_addName_of_mem {names ids : List String} (h : ∀ id ∈ names, id ∈ ids) : names.foldl addName ids = ids := by
  induction names with
  | nil => rfl
  | cons id names ih =>
    rw [List.foldl_cons, addName, if_pos (h id (by simp))]
    exact ih fun i hi => h i (List.mem_cons_of_mem id hi)

/-- Names that are there already change nothing. -/
theorem filter_foldl_addName {p : String → Bool} {names ids : List String} (h : ∀ id ∈ names, p id = true → id ∈ ids) :
    (names.foldl addName ids).filter p = ids.filter p := by
  induction names generalizing ids with
  | nil => rfl
  | cons id names ih =>
    have hlater : ∀ i ∈ names, p i = true → i ∈ addName ids id := fun i hi hp =>
      mem_addName.2 (.inl (h i (List.mem_cons_of_mem id hi) hp))
    rw [List.foldl_cons, ih hlater, addName]
    split
    · rfl
    · rename_i hm
      have hp : ¬p id = true := fun hp => hm (h id List.mem_cons_self hp)
      simp [hp]

end Roster

namespace Draft

theorem roster_meet (d : Draft) (order : Int) (id : String) : ∃ change : Participant → Participant,
    (∀ p, (change p).id = p.id ∧ (change p).card = p.card) ∧ (d.meet order id).roster = d.roster.modify id change := by
  refine ⟨_, ?_, rfl⟩
  exact fun _ => ⟨rfl, rfl⟩

theorem card_meet (d : Draft) (order : Int) (id i : String) : (d.meet order id).roster.card i = d.roster.card i := by
  obtain ⟨change, hc, hr⟩ := d.roster_meet order id
  rw [hr, Roster.card_modify (fun p => (hc p).1) fun p => (hc p).2]

theorem ids_meet (d : Draft) (order : Int) (id : String) : (d.meet order id).roster.ids = d.roster.ids := by
  obtain ⟨change, hc, hr⟩ := d.roster_meet order id
  rw [hr, Roster.ids_modify _ _ fun p => (hc p).1]

theorem roster_crossOut (d : Draft) (m : Message) : (d.crossOut m).roster = d.roster ∨
    ∃ change : Participant → Participant, (∀ p, (change p).id = p.id ∧ (change p).card = p.card) ∧
      (d.crossOut m).roster = d.roster.modify m.target.id change := by
  unfold crossOut
  split
  · refine .inr ⟨_, ?_, rfl⟩
    exact fun _ => ⟨rfl, rfl⟩
  · exact .inl rfl

theorem card_settle (d : Draft) (m : Message) (i : String) : (d.settle m).roster.card i = d.roster.card i := by
  unfold settle
  rcases roster_crossOut ((d.meet m.order m.source.id).meet m.order m.target.id) m with hr | ⟨change, hc, hr⟩
  · rw [hr, card_meet, card_meet]
  · rw [hr, Roster.card_modify (fun p => (hc p).1) fun p => (hc p).2, card_meet, card_meet]

theorem ids_settle (d : Draft) (m : Message) : (d.settle m).roster.ids = d.roster.ids := by
  unfold settle
  rcases roster_crossOut ((d.meet m.order m.source.id).meet m.order m.target.id) m with hr | ⟨change, hc, hr⟩
  · rw [hr, ids_meet, ids_meet]
  · rw [hr, Roster.ids_modify _ _ fun p => (hc p).1, ids_meet, ids_meet]

theorem Step.card {d d' : Draft} {e : Event} (h : Step d e d') (id : String) :
    d'.roster.card id = (d.roster.card id).after id e := by
  cases h with
  | mention h => simp [Roster.card_mention? h, Card.after, Event.declaration?, Event.link?]
  | @declare i _ _ _ h =>
    rw [roster_joinBox, Roster.card_declare? h]
    by_cases hi : i = id <;> simp [Card.after, Event.declaration?, Event.link?, hi]
  | @create i _ _ _ h =>
    rw [Roster.card_declare? h]
    by_cases hi : i = id <;> simp [Card.after, Event.declaration?, Event.link?, hi]
  | @link i _ _ h =>
    rw [Roster.card_modify_link (Roster.contains_of_mention? h), Roster.card_mention? h]
    by_cases hi : i = id <;> simp [Card.after, Event.declaration?, Event.link?, hi]
  | destroyAtLast h =>
    refine (Roster.card_modify ?_ ?_ _ _).trans ?_
    · exact fun _ => rfl
    · exact fun _ => rfl
    · simp [Roster.card_mention? h, Card.after, Event.declaration?, Event.link?]
  | destroyLater h => simp [Roster.card_mention? h, Card.after, Event.declaration?, Event.link?]
  | message hm h =>
    rw [card_settle]
    simp [Roster.card_mentionAll? h, Card.after, Event.declaration?, Event.link?]
  | note hn h => simp [Roster.card_mentionAll? h, Card.after, Event.declaration?, Event.link?]
  | fold h => simp [Roster.card_mention? h, Card.after, Event.declaration?, Event.link?]
  | activation h => simp [Roster.card_mention? h, Card.after, Event.declaration?, Event.link?]
  | _ => simp [Card.after, Event.declaration?, Event.link?]

theorem Step.ids {d d' : Draft} {e : Event} (h : Step d e d') : d'.roster.ids = e.names.foldl Roster.addName d.roster.ids := by
  cases h with
  | mention h => exact Roster.ids_mention? h
  | declare h =>
    rw [roster_joinBox]
    exact Roster.ids_declare? h
  | create h => exact Roster.ids_declare? h
  | link h | destroyAtLast h =>
    refine (Roster.ids_modify _ _ ?_).trans (Roster.ids_mention? h)
    exact fun _ => rfl
  | destroyLater h => exact Roster.ids_mention? h
  | message hm h =>
    rw [ids_settle]
    exact Roster.ids_mentionAll? h
  | note hn h => exact Roster.ids_mentionAll? h
  | fold h => exact Roster.ids_mention? h
  | activation h => exact Roster.ids_mention? h
  | _ => rfl

theorem Steps.card {d d' : Draft} {es : List Event} (hs : Steps d es d') (id : String) :
    d'.roster.card id = es.foldl (Card.after id) (d.roster.card id) := by
  induction hs with
  | nil => rfl
  | cons h _ ih => rw [ih, h.card, List.foldl_cons]

theorem Steps.ids {d d' : Draft} {es : List Event} (hs : Steps d es d') :
    d'.roster.ids = (es.flatMap Event.names).foldl Roster.addName d.roster.ids := by
  induction hs with
  | nil => rfl
  | cons h _ ih => rw [ih, h.ids, List.flatMap_cons, List.foldl_append]

end Draft

end Lifeline
