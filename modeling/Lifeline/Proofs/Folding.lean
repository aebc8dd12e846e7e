import Lifeline.Diagram.Activation
import Lifeline.Proofs.Named
/-!
# Activations that are folded into messages

An activation right after a message is folded into an end of the message, and the ends are
read from the source to the target. A timeline so tells the activations of a participant in
the order in which they were asked for, but for one case: a message of a participant to
itself takes in an activation at its target first. An activation that finds the target marked
the other way is folded into the source, and is read before the mark that it followed. A
timeline tells what was asked for exactly if no activation overtakes another in this way
(`Draft.told_eq_asked_iff`).
-/

namespace Lifeline

/-! ## What is told -/

/-- What an end of a message does to its participant: it activates it, deactivates it, or does
nothing. -/
def Endpoint.turn? (e : Endpoint) : Option Bool :=
  if e.activates then some true else if e.deactivates then some false else none

/-- What an item does to a participant, in order: whether it activates or deactivates it. -/
def Statement.turns (id : String) (item : Statement) : List Bool :=
  (item.events.filter fun e => e.id == id).map ActivationEvent.activates

/-- What a diagram tells of the activations of a participant. -/
def Diagram.told (m : Diagram) (id : String) : List Bool :=
  (m.events.filter fun e => e.id == id).map ActivationEvent.activates

/-! ## What is asked for -/

/-- What an operation asks for: a message what its source does and then what its target does,
an activation or a deactivation itself. -/
def Operation.asks (id : String) : Operation → List Bool
  | .activate i => if i = id then [true] else []
  | .deactivate i => if i = id then [false] else []
  | .addMessage m => (Statement.message m).turns id
  | .feed statement _ => statement.turns id
  | _ => []

/-- The activation or deactivation that an operation is. -/
def Operation.activation? : Operation → Option (String × Bool)
  | .activate id => some (id, true)
  | .deactivate id => some (id, false)
  | .feed (.directive x) _ =>
    match x.kind with
    | .activate => some (x.id, true)
    | .deactivate => some (x.id, false)
    | _ => none
  | _ => none

/-- Whether a message that takes in an activation reads it before the one that it has: it is a
message of the participant to itself, its source is free and its target does the opposite. -/
def Message.overtaken (m : Message) (id : String) (activate : Bool) : Bool :=
  m.source.id == id && m.target.id == id && m.source.isFree && m.target.turn? == some (!activate)

namespace Draft

/-- Whether an activation of a participant overtakes the one before it. -/
def overtakes (d : Draft) (id : String) (activate : Bool) : Bool :=
  match d.past with
  | .message m :: _ => m.overtaken id activate
  | _ => false

/-- What operations ask for, given the draft that they start from. An operation that fails asks
for nothing. -/
def asked (d : Draft) (id : String) : List Operation → List Bool
  | [] => []
  | op :: ops =>
    (if (d.apply op).result.isOk then op.asks id else []) ++ (d.apply op).draft.asked id ops

/-- Whether one of some operations is an activation of a participant that overtakes the one
before it, given the draft that they start from. -/
def overtaken (d : Draft) (id : String) : List Operation → Bool
  | [] => false
  | op :: ops =>
    ((d.apply op).result.isOk && op.activation?.any fun (i, activate) => i == id && d.overtakes id activate) ||
      (d.apply op).draft.overtaken id ops

end Draft

/-! ## The turns of a message -/

theorem Endpoint.turn?_eq_none {e : Endpoint} : e.turn? = none ↔ e.isFree = true := by
  unfold turn? isFree
  cases e.activates <;> cases e.deactivates <;> simp

theorem Endpoint.turn?_mark {e : Endpoint} (h : e.isFree = true) (activate : Bool) :
    (Draft.mark activate e).turn? = some activate := by
  unfold isFree at h
  unfold Draft.mark turn?
  cases activate <;> simp_all

theorem Endpoint.id_mark (e : Endpoint) (activate : Bool) : (Draft.mark activate e).id = e.id := by
  unfold Draft.mark
  split <;> rfl

theorem Statement.turns_message (m : Message) (id : String) : (Statement.message m).turns id =
    (if m.source.id = id then m.source.turn?.toList else []) ++
      (if m.target.id = id then m.target.turn?.toList else []) := by
  have hend : ∀ e : Endpoint, ((e.event? m.order).toList.filter fun x => x.id == id).map ActivationEvent.activates =
      if e.id = id then e.turn?.toList else [] := by
    intro e
    unfold Endpoint.event? Endpoint.turn?
    by_cases hid : e.id = id <;> cases e.activates <;> cases e.deactivates <;> simp [hid]
  rw [← hend, ← hend]
  simp [turns, events]

/-- A message that takes in an activation tells it after what it told before, unless the
activation overtakes that. -/
theorem Statement.turns_fold {m m' : Message} {i : String} {activate : Bool} (h : Draft.fold? m i activate = some m')
    (id : String) : (Statement.message m').turns id =
      if i = id then
        if m.overtaken id activate then activate :: (Statement.message m).turns id
        else (Statement.message m).turns id ++ [activate]
      else (Statement.message m).turns id := by
  simp only [turns_message]
  unfold Draft.fold? at h
  split at h
  · -- The target is free, so nothing stands behind what it takes in.
    rename_i hc
    simp only [Bool.and_eq_true, beq_iff_eq] at hc
    obtain ⟨rfl, hfree⟩ := hc
    cases h
    have hnone : m.target.turn? = none := Endpoint.turn?_eq_none.2 hfree
    have hover : m.overtaken id activate = false := by simp [Message.overtaken, hnone]
    simp only [Endpoint.id_mark, Endpoint.turn?_mark hfree, hnone, hover]
    by_cases hid : m.target.id = id <;> simp [hid]
  · rename_i hbusy
    split at h
    · rename_i hc
      simp only [Bool.and_eq_true, beq_iff_eq] at hc
      obtain ⟨rfl, hfree⟩ := hc
      cases h
      have hnone : m.source.turn? = none := Endpoint.turn?_eq_none.2 hfree
      simp only [Endpoint.id_mark, Endpoint.turn?_mark hfree, hnone]
      by_cases hid : m.source.id = id
      · by_cases ht : m.target.id = id
        · -- The target has been marked: the same way, or the opposite one.
          have hmarked : m.target.turn? ≠ none := by
            rw [Ne, Endpoint.turn?_eq_none]
            simpa [hid, ht] using hbusy
          obtain ⟨turn, hturn⟩ := Option.ne_none_iff_exists'.1 hmarked
          have hover : m.overtaken id activate = (turn == !activate) := by
            simp [Message.overtaken, hid, ht, hfree, hturn]
          cases turn <;> cases activate <;> simp [hid, ht, hturn, hover]
        · have hover : m.overtaken id activate = false := by simp [Message.overtaken, ht]
          simp [hid, ht, hover]
      · simp [hid]
    · cases h

/-! ## What an event asks for -/

namespace Event

/-- What an event asks for. -/
def asks (id : String) : Event → List Bool
  | .message m => (Statement.message m).turns id
  | .activation i activate => if i = id then [activate] else []
  | _ => []

/-- Whether an event is an activation of a participant that overtakes the one before it. -/
def overtakes (d : Draft) (id : String) : Event → Bool
  | .activation i activate => i == id && d.overtakes id activate
  | _ => false

end Event

namespace Operation

/-- An operation asks for what its events ask for. -/
theorem asks_events (d : Draft) (id : String) (op : Operation) :
    (op.events d).flatMap (Event.asks id) = op.asks id := by
  have hlinks : ∀ (i : String) (ls : List Link), (ls.map (Event.link i)).flatMap (Event.asks id) = [] := by
    intro i ls
    simp [List.flatMap_map, Event.asks]
  have hstatement : ∀ x, (statementEvents d x).flatMap (Event.asks id) = x.turns id := by
    intro x
    cases x with
    | message m => simp [statementEvents, Event.asks]
    | links l => exact hlinks l.id l.links
    | declaration p => cases hp : p.created <;> simp [statementEvents, hp, Event.asks, Statement.turns, Statement.events]
    | directive x =>
      obtain ⟨kind, i, order⟩ := x
      cases kind with
      | create => cases hr : d.roster.get? i <;> simp [statementEvents, hr, Event.asks, Statement.turns, Statement.events]
      | activate | deactivate =>
        by_cases hi : i = id <;> simp [statementEvents, Event.asks, Statement.turns, Statement.events, hi]
      | destroy => simp [statementEvents, Event.asks, Statement.turns, Statement.events]
    | _ => simp [statementEvents, Event.asks, Statement.turns, Statement.events]
  cases op with
  | feed x line => exact hstatement x
  | addBranch label line => cases hk : d.frames.branchKeyword <;> simp [events, hk, Event.asks, asks]
  | extendLabel text => cases hf : d.frames.block? <;> simp [events, hf, Event.asks, asks]
  | _ => simp [events, Event.asks, asks]

theorem events_of_activation? {d : Draft} {op : Operation} {id : String} {activate : Bool}
    (h : op.activation? = some (id, activate)) : op.events d = [.activation id activate] := by
  unfold activation? at h
  split at h
  · cases h
    rfl
  · cases h
    rfl
  · split at h
    · cases h
      simp [events, statementEvents, *]
    · cases h
      simp [events, statementEvents, *]
    · cases h
  · cases h

/-- An operation that is no activation has events that overtake nothing. -/
theorem not_overtakes_events {d : Draft} {op : Operation} (h : op.activation? = none) :
    ∀ e ∈ op.events d, ∀ d' id, e.overtakes d' id = false := by
  have hstatement : ∀ x line, (Operation.feed x line).activation? = none →
      ∀ e ∈ statementEvents d x, ∀ d' id, e.overtakes d' id = false := by
    intro x line h
    cases x with
    | declaration p => cases hp : p.created <;> simp [statementEvents, hp, Event.overtakes]
    | directive x =>
      obtain ⟨kind, i, order⟩ := x
      cases kind with
      | create => cases hr : d.roster.get? i <;> simp [statementEvents, hr, Event.overtakes]
      | activate | deactivate => cases h
      | destroy => simp [statementEvents, Event.overtakes]
    | _ => simp [statementEvents, Event.overtakes]
  cases op with
  | feed x line => exact hstatement x line h
  | activate i | deactivate i => cases h
  | addBranch label line => cases hk : d.frames.branchKeyword <;> simp [events, hk, Event.overtakes]
  | extendLabel text => cases hf : d.frames.block? <;> simp [events, hf, Event.overtakes]
  | _ => simp [events, Event.overtakes]

end Operation

/-! ## Steps -/

namespace Draft

/-- What the timeline of a draft tells of the activations of a participant. -/
def turns (d : Draft) (id : String) : List Bool := d.past.reverse.flatMap (Statement.turns id)

theorem turns_cons {d d' : Draft} {item : Statement} {older : List Statement} (h : d.past = older)
    (h' : d'.past = item :: older) (id : String) : d'.turns id = d.turns id ++ item.turns id := by
  simp [turns, h, h']

/-- An event adds what it asks for, unless it overtakes. -/
theorem Step.turns {d d' : Draft} {e : Event} (h : Step d e d') {id : String} (hn : e.overtakes d id = false) :
    d'.turns id = d.turns id ++ e.asks id := by
  cases h with
  | declare => simp [Draft.turns, Event.asks]
  | @message m r hv hr =>
    refine (turns_cons rfl (past_settle _ _) id).trans ?_
    simp [Event.asks, Statement.turns_message, placed]
  | @fold i activate r m m' older hr hp hm =>
    have htold := Statement.turns_fold hm id
    have hover : i = id → m.overtaken id activate = false := by
      intro hi
      simpa [Event.overtakes, overtakes, hp, hi] using hn
    by_cases hi : i = id
    · simp [Draft.turns, hp, htold, Event.asks, hi, hover hi]
    · simp [Draft.turns, hp, htold, Event.asks, hi]
  | @activation i activate r hr hp =>
    refine (turns_cons rfl rfl id).trans ?_
    by_cases hi : i = id <;> cases activate <;>
      simp [directive, Event.asks, Statement.turns, Statement.events, hi]
  | @extend text frame =>
    have hv : ∀ label item, (relabelItem label item).turns id = item.turns id := fun label item => by
      cases item <;> rfl
    have hsame := map_changeAt (hv (d.grownLabel frame.content text)) (d.currentBranch frame.content).startOrder.toNat d.past
    simp [Draft.turns, Event.asks, List.flatMap, List.map_reverse, hsame]
  | mention | link | number | openBox | closeBox => simp [Draft.turns, Event.asks]
  | create | destroyAtLast | destroyLater | note | openBlock | openBranch | closeBlock =>
    simp [Draft.turns, Event.asks, Statement.turns, Statement.events, directive]

/-- An activation that overtakes another is told before it. -/
theorem Step.turns_overtaking {d d' : Draft} {id : String} {activate : Bool} (h : Step d (.activation id activate) d')
    (ho : d.overtakes id activate = true) : ∃ early, d'.turns id = early ++ [activate, !activate] := by
  unfold overtakes at ho
  split at ho
  · rename_i m older hpast
    have hbusy := ho
    simp only [Message.overtaken, Bool.and_eq_true, beq_iff_eq] at hbusy
    obtain ⟨⟨⟨hs, ht⟩, hfree⟩, hturn⟩ := hbusy
    have hbefore : (Statement.message m).turns id = [!activate] := by
      simp [Statement.turns_message, hs, ht, hturn, Endpoint.turn?_eq_none.2 hfree]
    cases h with
    | fold hr hp hm =>
      obtain ⟨hlast, hrest⟩ := List.cons.inj (hpast.symm.trans hp)
      obtain rfl := Statement.message.inj hlast
      have hafter := Statement.turns_fold hm id
      simp only [ho, hbefore, if_true] at hafter
      refine ⟨older.reverse.flatMap (Statement.turns id), ?_⟩
      simp [Draft.turns, hrest, hafter]
    | activation hr hp =>
      have hnone := hp m older hpast
      unfold fold? at hnone
      split at hnone
      · cases hnone
      · simp [hs, hfree] at hnone
  · cases ho

theorem Steps.turns {d d' : Draft} {es : List Event} (hs : Steps d es d') {id : String}
    (hn : ∀ e ∈ es, ∀ d, e.overtakes d id = false) : d'.turns id = d.turns id ++ es.flatMap (Event.asks id) := by
  induction hs with
  | nil => simp
  | cons h _ ih =>
    rw [ih fun e he => hn e (List.mem_cons_of_mem _ he), h.turns (hn _ (by simp) _), List.flatMap_cons,
      List.append_assoc]

/-! ## Runs -/

/-- An operation that fails changes nothing that is told. -/
theorem turns_of_error {d : Draft} {op : Operation} {e : DraftError} (h : (d.apply op).result = .error e) (id : String) :
    (d.apply op).draft.turns id = d.turns id := by
  obtain ⟨some, -, hs⟩ := steps_of_error h
  rw [hs.turns (by simp [Event.overtakes])]
  simp [List.flatMap_map, Event.asks]

/-- An operation that works adds what it asks for, unless it overtakes. -/
theorem turns_of_ok {d : Draft} {op : Operation} {a : Answer} (h : (d.apply op).result = .ok a) {id : String}
    (hn : (op.activation?.any fun (i, activate) => i == id && d.overtakes id activate) = false) :
    (d.apply op).draft.turns id = d.turns id ++ op.asks id := by
  have hs := steps_of_ok h
  rw [← op.asks_events d id]
  cases ha : op.activation? with
  | none => exact hs.turns fun e he d' => Operation.not_overtakes_events ha e he d' id
  | some act =>
    obtain ⟨i, activate⟩ := act
    rw [Operation.events_of_activation? ha] at hs ⊢
    rw [ha, Option.any_some] at hn
    rw [(Steps.single_iff.1 hs).turns hn, List.flatMap_singleton]

/-- What has been told is not what has been asked for from the first activation on that
overtakes another, however the run goes on. -/
theorem turns_run_iff (d : Draft) (id : String) (ops : List Operation) (before : List Bool) :
    (d.run ops).turns id = before ++ d.asked id ops ↔ d.turns id = before ∧ d.overtaken id ops = false := by
  induction ops generalizing d before with
  | nil => simp [run, asked, overtaken]
  | cons op ops ih =>
    have hrun : d.run (op :: ops) = (d.apply op).draft.run ops := rfl
    simp only [asked, overtaken]
    rw [hrun, ← List.append_assoc, ih]
    cases hr : (d.apply op).result with
    | error e => simp [turns_of_error hr, Except.isOk, Except.toBool]
    | ok a =>
      simp only [Except.isOk, Except.toBool, if_true, Bool.true_and]
      by_cases hover : (op.activation?.any fun (i, activate) => i == id && d.overtakes id activate) = true
      · -- What was asked for last is told before what it overtakes.
        obtain ⟨i, activate, ha, rfl, ho⟩ : ∃ i activate, op.activation? = some (i, activate) ∧ i = id ∧
            d.overtakes id activate = true := by
          cases ha : op.activation? with
          | none => simp [ha] at hover
          | some act => exact ⟨act.1, act.2, rfl, by simpa [ha] using hover⟩
        have hs := steps_of_ok hr
        have hasks := op.asks_events d i
        rw [Operation.events_of_activation? ha] at hs hasks
        obtain ⟨early, hearly⟩ := (Steps.single_iff.1 hs).turns_overtaking ho
        have hne : early ++ [activate, !activate] ≠ before ++ [activate] := by
          intro he
          have hlast := congrArg List.getLast? he
          simp at hlast
        simp only [List.flatMap_singleton, Event.asks, if_true] at hasks
        simp [hearly, ← hasks, hover, hne]
      · rw [Bool.not_eq_true] at hover
        rw [turns_of_ok hr hover, List.append_left_inj, hover, Bool.false_or]

/-- The diagram of a draft tells what its timeline tells. -/
theorem told_build (d : Draft) (id : String) : d.build.told id = d.turns id := by
  have hfill : ∀ (blocks : List Block) (item : Statement), (item.fillIn blocks).turns id = item.turns id := by
    intro blocks item
    cases item <;> rfl
  have htold : d.build.told id = d.build.timeline.flatMap (Statement.turns id) := by
    simp only [Diagram.told, Diagram.events, List.filter_flatMap, List.map_flatMap]
    rfl
  rw [htold]
  simp only [build, timeline, List.flatMap_map, hfill]
  rfl

/-- A diagram tells the activations of a participant in the order in which they were asked for,
if and only if no activation overtook the one before it. -/
theorem told_eq_asked_iff (ops : List Operation) (id : String) :
    (run {} ops).build.told id = asked {} id ops ↔ overtaken {} id ops = false := by
  have h := turns_run_iff {} id ops []
  have hstart : turns {} id = [] := rfl
  rw [told_build]
  simpa [hstart] using h

/-- A message of a participant to itself, after which it is activated and then deactivated: the
diagram tells the deactivation first. -/
theorem told_reversed :
    let ops := [.addMessage { source := { id := "A" }, target := { id := "A" } }, .activate "A", .deactivate "A"]
    asked {} "A" ops = [true, false] ∧ (run {} ops).build.told "A" = [false, true] := by
  decide +kernel

end Draft

end Lifeline
