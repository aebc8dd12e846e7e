import Mathlib.Data.List.Induction
import Lifeline.Proofs.Coherence
/-!
# What operations tell of participants

The participants of a diagram stand in the order in which the operations first mention them,
and all that is known about one of them was said by some operation: the last declaration
settles its kind, the last one that gives a label its label, and every link is added to those
before it (`Draft.participants_of_operations`).
-/

namespace Lifeline

/-! ## What an operation tells -/

/-- The ids that a statement mentions when it is taken in, in order. -/
def Statement.mentions : Statement → List String
  | .declaration p => [p.id]
  | .links l => l.links.map fun _ => l.id
  | item => item.names

/-- The kind and the label that a statement gives when it declares a participant. A creation
that is only a directive declares too, and gives neither. -/
def Statement.declared? (id : String) : Statement → Option (Option ParticipantKind × Option String)
  | .declaration p => if p.id = id then some (some p.kind, p.label) else none
  | .directive x => if x.kind = .create ∧ x.id = id then some (none, none) else none
  | _ => none

namespace Operation

/-- The ids that an operation mentions, in order. -/
def mentions : Operation → List String
  | .declare id _ _ | .create id _ _ | .destroy id | .activate id | .deactivate id | .addLink id _ => [id]
  | .addMessage m => [m.source.id, m.target.id]
  | .addNote n => n.targets
  | .feed statement _ => statement.mentions
  | _ => []

/-- The kind and the label that an operation gives when it declares or creates a participant. -/
def declared? (id : String) : Operation → Option (Option ParticipantKind × Option String)
  | .declare i kind label | .create i kind label => if i = id then some (some kind, label) else none
  | .feed statement _ => statement.declared? id
  | _ => none

/-- Whether an operation declares or creates a participant. -/
def declares (id : String) (op : Operation) : Bool := (op.declared? id).isSome

/-- The kind that an operation gives a participant. -/
def kindFor? (id : String) (op : Operation) : Option ParticipantKind := (op.declared? id).bind Prod.fst

/-- The label that an operation gives a participant. -/
def labelFor? (id : String) (op : Operation) : Option String := (op.declared? id).bind Prod.snd

/-- The links that an operation attaches to a participant, trimmed. -/
def linksFor (id : String) : Operation → List Link
  | .addLink i l => if i = id then [l.trimmed] else []
  | .feed (.links l) _ => if l.id = id then l.links.map Link.trimmed else []
  | _ => []

end Operation

/-- Whether all of some operations work, one after the other. -/
def Draft.works (d : Draft) : List Operation → Bool
  | [] => true
  | op :: ops => (d.apply op).result.isOk && (d.apply op).draft.works ops

/-! ## Operations and their events -/

/-- What is known about a participant after an operation. -/
def Card.told (id : String) (c : Card) (op : Operation) : Card where
  kind := (op.kindFor? id).getD c.kind
  label := (op.labelFor? id).or c.label
  explicit := c.explicit || op.declares id
  links := c.links ++ op.linksFor id

namespace Operation

/-- An operation mentions the participants that its events name. -/
theorem names_events (d : Draft) (op : Operation) : (op.events d).flatMap Event.names = op.mentions := by
  have hstatement : ∀ x, (statementEvents d x).flatMap Event.names = x.mentions := by
    intro x
    cases x with
    | declaration p => cases hc : p.created <;> simp [statementEvents, hc, Event.names, Statement.mentions]
    | links l =>
      rw [statementEvents, Statement.mentions, List.flatMap_map, List.map_eq_flatMap]
      rfl
    | directive x =>
      obtain ⟨kind, i, order⟩ := x
      cases kind with
      | create =>
        cases hp : d.roster.get? i with
        | none => simp [statementEvents, hp, Event.names, Statement.mentions, Statement.names]
        | some p =>
          have hid : p.id = i := by simpa using List.find?_some hp
          simp [statementEvents, hp, Event.names, Statement.mentions, Statement.names, hid]
      | _ => simp [statementEvents, Event.names, Statement.mentions, Statement.names]
    | _ => simp [statementEvents, Event.names, Statement.mentions, Statement.names]
  cases op with
  | feed x line => exact hstatement x
  | addBranch label line => cases hk : d.frames.branchKeyword <;> simp [events, hk, Event.names, mentions]
  | extendLabel text => cases hf : d.frames.block? <;> simp [events, hf, Event.names, mentions]
  | _ => simp [events, Event.names, mentions]

/-- An operation that tells nothing of a participant leaves what is known about it. -/
theorem told_of_none {id : String} {op : Operation} (h : op.declared? id = none) (hl : op.linksFor id = []) (c : Card) :
    c.told id op = c := by
  simp [Card.told, kindFor?, labelFor?, declares, h, hl]

/-- A declaration tells what its operation tells. -/
theorem after_declaration (id : String) (op : Operation) {i : String} {kind : ParticipantKind} {label : Option String}
    (hd : op.declared? id = if i = id then some (some kind, label) else none) (hl : op.linksFor id = []) (c : Card) :
    c.after id (.declare i kind label) = c.told id op ∧ c.after id (.create i kind label) = c.told id op := by
  by_cases hi : i = id <;>
    simp [Card.after, Event.declaration?, Event.link?, Card.declare, Card.told, kindFor?, labelFor?, declares, hd, hl, hi]

/-- Links add up. -/
theorem foldl_links (id i : String) (ls : List Link) (c : Card) : (ls.map (Event.link i)).foldl (Card.after id) c =
    { c with links := c.links ++ if i = id then ls.map Link.trimmed else [] } := by
  induction ls generalizing c with
  | nil => simp
  | cons l ls ih =>
    rw [List.map_cons, List.foldl_cons, ih]
    by_cases hi : i = id <;> simp [hi, Card.after, Event.declaration?, Event.link?]

/-- A creation that is only a directive keeps the kind and the label that are known. -/
theorem card_creation (d : Draft) (id : String) (x : Directive) (hx : x.kind = .create) (line : Option Int) :
    (statementEvents d (.directive x)).foldl (Card.after id) (d.roster.card id) =
      (d.roster.card id).told id (.feed (.directive x) line) := by
  obtain ⟨kind, i, order⟩ := x
  obtain rfl : kind = .create := hx
  by_cases hi : i = id
  · subst hi
    cases hp : d.roster.get? i with
    | none =>
      simp [statementEvents, hp, Roster.card, Card.after, Event.declaration?, Card.declare, Card.told, kindFor?, labelFor?,
        declares, declared?, Statement.declared?, linksFor]
    | some p =>
      have hid : p.id = i := by simpa using List.find?_some hp
      cases hl : p.label <;>
        simp [statementEvents, hp, hid, hl, Roster.card, Participant.card, Card.after, Event.declaration?, Card.declare,
          Card.told, kindFor?, labelFor?, declares, declared?, Statement.declared?, linksFor]
  · rw [told_of_none (by simp [declared?, Statement.declared?, hi]) rfl]
    cases hp : d.roster.get? i with
    | none => simp [statementEvents, hp, Card.after, Event.declaration?, Event.link?, hi]
    | some p =>
      have hid : p.id = i := by simpa using List.find?_some hp
      simp [statementEvents, hp, Card.after, Event.declaration?, Event.link?, hid, hi]

theorem card_statementEvents (d : Draft) (id : String) (x : Statement) (line : Option Int) :
    (statementEvents d x).foldl (Card.after id) (d.roster.card id) = (d.roster.card id).told id (.feed x line) := by
  cases x with
  | declaration p =>
    have hp := after_declaration id (.feed (.declaration p) line) rfl rfl (d.roster.card id)
    cases hc : p.created with
    | true => simpa [statementEvents, hc] using hp.2
    | false => simpa [statementEvents, hc] using hp.1
  | links l =>
    refine (foldl_links id l.id l.links _).trans ?_
    simp [Card.told, kindFor?, labelFor?, declares, declared?, Statement.declared?, linksFor]
  | directive x =>
    cases hk : x.kind with
    | create => exact card_creation d id x hk line
    | _ =>
      rw [told_of_none (by simp [declared?, Statement.declared?, hk]) rfl]
      simp [statementEvents, hk, Card.after, Event.declaration?, Event.link?]
  | _ =>
    rw [told_of_none rfl rfl]
    simp [statementEvents, Card.after, Event.declaration?, Event.link?]

/-- The events of an operation tell what the operation tells. -/
theorem card_events (d : Draft) (id : String) (op : Operation) :
    (op.events d).foldl (Card.after id) (d.roster.card id) = (d.roster.card id).told id op := by
  cases op with
  | declare i kind label => exact (after_declaration id (.declare i kind label) rfl rfl _).1
  | create i kind label => exact (after_declaration id (.create i kind label) rfl rfl _).2
  | addLink i l =>
    refine (foldl_links id i [l] _).trans ?_
    simp [Card.told, kindFor?, labelFor?, declares, declared?, linksFor]
  | feed x line => exact card_statementEvents d id x line
  | addBranch label line =>
    rw [told_of_none rfl rfl]
    cases hk : d.frames.branchKeyword <;> simp [events, hk, Card.after, Event.declaration?, Event.link?]
  | extendLabel text =>
    rw [told_of_none rfl rfl]
    cases hf : d.frames.block? <;> simp [events, hf, Card.after, Event.declaration?, Event.link?]
  | _ =>
    rw [told_of_none rfl rfl]
    simp [events, Card.after, Event.declaration?, Event.link?]

end Operation

/-! ## Runs -/

namespace Card

/-- What operations tell of a participant, one after the other. -/
theorem foldl_told (id : String) (c : Card) (ops : List Operation) : ops.foldl (told id) c =
    { kind := (ops.reverse.findSome? (Operation.kindFor? id)).getD c.kind
      label := (ops.reverse.findSome? (Operation.labelFor? id)).or c.label
      explicit := c.explicit || ops.any (Operation.declares id)
      links := c.links ++ ops.flatMap (Operation.linksFor id) } := by
  induction ops generalizing c with
  | nil => simp
  | cons op ops ih =>
    rw [List.foldl_cons, ih]
    simp only [told, List.reverse_cons, List.findSome?_append, List.findSome?_singleton, List.any_cons, List.flatMap_cons,
      Bool.or_assoc, List.append_assoc, Option.or_assoc, mk.injEq, and_true]
    cases ops.reverse.findSome? (Operation.kindFor? id) <;> simp

end Card

/-- Names added one by one to none are the names without repetition. -/
theorem Roster.foldl_addName_nil (names : List String) : names.foldl addName [] = names.eraseDups := by
  induction names using List.reverseRecOn with
  | nil => rfl
  | append_singleton names id ih =>
    rw [List.foldl_append, ih, List.eraseDups_append, List.foldl_cons, List.foldl_nil, addName]
    by_cases hid : id ∈ names <;> simp [List.removeAll, List.eraseDups_cons, hid]

namespace Draft

variable {d : Draft}

/-- Operations that work add the participants that they mention, and tell of them what they tell. -/
theorem roster_of_works {ops : List Operation} (h : d.works ops = true) :
    (d.run ops).roster.ids = (ops.flatMap Operation.mentions).foldl Roster.addName d.roster.ids ∧
      ∀ id, (d.run ops).roster.card id = ops.foldl (Card.told id) (d.roster.card id) := by
  induction ops generalizing d with
  | nil => exact ⟨rfl, fun _ => rfl⟩
  | cons op ops ih =>
    obtain ⟨hop, hops⟩ := Bool.and_eq_true_iff.1 h
    obtain ⟨hids, hcards⟩ := ih hops
    have hsteps : Steps d (op.events d) (d.apply op).draft := by
      cases hr : (d.apply op).result with
      | ok a => exact steps_of_ok hr
      | error e => simp [hr, Except.isOk, Except.toBool] at hop
    constructor
    · rw [List.flatMap_cons, List.foldl_append, ← op.names_events d, ← hsteps.ids]
      exact hids
    · intro id
      rw [List.foldl_cons, ← op.card_events d id, ← hsteps.card id]
      exact hcards id

/-! ## Main theorem -/

/-- In a diagram that is built by operations that all work, the participants stand in the order of
their first mention, each once. A participant is explicit exactly if some operation declared or
created it. Its kind is that of the last such operation, its label the one of the last such
operation that gave one, and its links are those of all operations in order, trimmed. -/
theorem participants_of_operations (ops : List Operation) (h : works {} ops = true) :
    (run {} ops).build.participantIds = (ops.flatMap Operation.mentions).eraseDups ∧
      ∀ p ∈ (run {} ops).build.participants,
        (p.explicit = true ↔ ∃ op ∈ ops, op.declares p.id = true) ∧
          p.kind = (ops.reverse.findSome? (Operation.kindFor? p.id)).getD .participant ∧
          p.label = ops.reverse.findSome? (Operation.labelFor? p.id) ∧
          p.links = ops.flatMap (Operation.linksFor p.id) := by
  obtain ⟨hids, hcards⟩ := roster_of_works h
  refine ⟨?_, fun p hp => ?_⟩
  · rw [build_ids, hids]
    exact Roster.foldl_addName_nil _
  · obtain ⟨q, hq, rfl⟩ := List.mem_map.1 hp
    have hcard := hcards q.id
    rw [((coherent_run ops).card_of_mem hq).1, Card.foldl_told] at hcard
    have hempty : ({} : Draft).roster.card q.id = {} := rfl
    simp only [hempty, Participant.card, Card.mk.injEq, Bool.false_or, Option.or_none, List.nil_append] at hcard
    obtain ⟨hkind, hlabel, hexplicit, hlinks⟩ := hcard
    exact ⟨by rw [hexplicit, List.any_eq_true], hkind, hlabel, hlinks⟩

/-- A participant that is mentioned, created with a label and declared again, and one that is only
linked. -/
def acquaintance : List Operation := [
  .addMessage { source := { id := "B" }, target := { id := "A" } },
  .feed (.directive { kind := .create, id := "A" }) none,
  .create "A" .actor (some "Ann"),
  .addLink "C" ⟨Text.Points.ofString " docs ", Text.Points.ofString "u"⟩,
  .declare "A" .participant none,
  .feed (.links { id := "C", links := [⟨Text.Points.ofString "wiki", Text.Points.ofString " v"⟩] }) none,
  .addNote { placement := .over, targets := ["D", "B"] }]

theorem participants_of_acquaintance : works {} acquaintance = true ∧
    (run {} acquaintance).build.participantIds = ["B", "A", "C", "D"] ∧
    (∀ p ∈ (run {} acquaintance).build.participants, p.id = "A" →
      p.explicit = true ∧ p.kind = .participant ∧ p.label = some "Ann") ∧
    ∀ p ∈ (run {} acquaintance).build.participants, p.id = "C" → p.explicit = false ∧ p.links =
      [⟨Text.Points.ofString "docs", Text.Points.ofString "u"⟩, ⟨Text.Points.ofString "wiki", Text.Points.ofString "v"⟩] := by
  obtain ⟨hids, hps⟩ := participants_of_operations acquaintance (by decide)
  refine ⟨by decide, hids.trans (by decide), fun p hp hid => ?_, fun p hp hid => ?_⟩
  · obtain ⟨he, hk, hl, -⟩ := hps p hp
    rw [hid] at he hk hl
    exact ⟨he.2 (by decide), hk.trans (by decide), hl.trans (by decide)⟩
  · obtain ⟨he, -, -, hlinks⟩ := hps p hp
    rw [hid] at he hlinks
    exact ⟨Bool.eq_false_iff.2 fun h => absurd (he.1 h) (by decide), hlinks.trans (by decide)⟩

end Draft

end Lifeline
