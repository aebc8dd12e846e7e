import Mathlib.Data.List.Basic
import Lifeline.Diagram.Activation
import Lifeline.Proofs.History
/-!
# Activation spans match like brackets

The spans of a diagram are found in one pass, which closes the latest open span of a participant.
Every activation has one span, and it ends where a count says: at the first deactivation at which
more deactivations than activations of the participant have followed (`Diagram.spans_match`).

The proof follows the pass forwards. What the events to come do to a span that is open depends
only on how many spans of its participant are open inside it (`closesAfter`), so they can be
settled at once (`settleAll`).
-/

namespace Lifeline

/-! ## Counting -/

/-- How many of some events activate a participant. -/
def activations (id : String) (events : List ActivationEvent) : Nat := events.countP fun e => e.id == id && e.activates

/-- How many of some events deactivate a participant. -/
def deactivations (id : String) (events : List ActivationEvent) : Nat := events.countP fun e => e.id == id && !e.activates

theorem activations_cons (id : String) (e : ActivationEvent) (events : List ActivationEvent) :
    activations id (e :: events) = activations id events + if e.id == id && e.activates then 1 else 0 :=
  List.countP_cons

theorem deactivations_cons (id : String) (e : ActivationEvent) (events : List ActivationEvent) :
    deactivations id (e :: events) = deactivations id events + if e.id == id && !e.activates then 1 else 0 :=
  List.countP_cons

/-- The event that closes an activation of a participant, among those that follow it: the first
deactivation at which the deactivations outnumber the activations. -/
def closing? (id : String) (later : List ActivationEvent) : Option ActivationEvent :=
  (later.zipIdx.find? fun (e, i) => e.id == id && !e.activates &&
    decide (activations id (later.take (i + 1)) < deactivations id (later.take (i + 1)))).map Prod.fst

/-- How many activations of a participant are not closed by the events that follow them. -/
def openCount (id : String) (events : List ActivationEvent) : Nat :=
  events.zipIdx.countP fun (e, i) => e.id == id && e.activates && (closing? id (events.drop (i + 1))).isNone

/-- The span of an activation at a place among the events: it ends at the event that closes it, or
else with the timeline, and its depth is the number of spans of its participant that are open
before it. -/
def Diagram.spanAt (m : Diagram) (e : ActivationEvent) (place : Nat) : Span where
  id := e.id
  start := e.order
  stop := ((closing? e.id (m.events.drop (place + 1))).map ActivationEvent.order).getD m.timeline.length
  depth := openCount e.id (m.events.take place)

/-- Whether of two spans one lies within the other, or they have an end in common at most. -/
def Span.Nests (s t : Span) : Prop :=
  s.start ≤ t.start ∧ t.stop ≤ s.stop ∨ t.start ≤ s.start ∧ s.stop ≤ t.stop ∨ s.stop ≤ t.start ∨ t.stop ≤ s.start

/-! ## Closing from inside out -/

/-- The event that closes an activation inside which some others are open, which must be closed
before. -/
def closesAfter (id : String) : Nat → List ActivationEvent → Option ActivationEvent
  | _, [] => none
  | inner, e :: later =>
    if e.id == id then
      if e.activates then closesAfter id (inner + 1) later
      else match inner with
        | 0 => some e
        | inner + 1 => closesAfter id inner later
    else closesAfter id inner later

section closesAfter

variable {id : String} {e : ActivationEvent} {later : List ActivationEvent} {inner : Nat}

theorem closesAfter_other (h : e.id ≠ id) : closesAfter id inner (e :: later) = closesAfter id inner later := by
  simp [closesAfter, h]

theorem closesAfter_activation (h : e.activates = true) :
    closesAfter e.id inner (e :: later) = closesAfter e.id (inner + 1) later := by
  simp [closesAfter, h]

theorem closesAfter_zero (h : e.activates = false) : closesAfter e.id 0 (e :: later) = some e := by
  simp [closesAfter, h]

theorem closesAfter_succ (h : e.activates = false) :
    closesAfter e.id (inner + 1) (e :: later) = closesAfter e.id inner later := by
  simp [closesAfter, h]

theorem mem_of_closesAfter {x : ActivationEvent} (h : closesAfter id inner later = some x) : x ∈ later := by
  induction later generalizing inner with
  | nil => cases h
  | cons e later ih =>
    by_cases hid : e.id = id
    · subst hid
      cases ha : e.activates with
      | true => exact List.mem_cons_of_mem _ (ih (closesAfter_activation ha ▸ h))
      | false =>
        cases inner with
        | zero =>
          rw [closesAfter_zero ha] at h
          exact Option.some.inj h ▸ List.mem_cons_self
        | succ inner => exact List.mem_cons_of_mem _ (ih (closesAfter_succ ha ▸ h))
    · exact List.mem_cons_of_mem _ (ih (closesAfter_other hid ▸ h))

/-- Whether an event at a place closes an activation inside which some others are open: there the
deactivations outnumber the activations by more than those. -/
def closesAt (id : String) (inner : Nat) (later : List ActivationEvent) (x : ActivationEvent × Nat) : Bool :=
  x.1.id == id && !x.1.activates &&
    decide (activations id (later.take (x.2 + 1)) + inner < deactivations id (later.take (x.2 + 1)))

/-- Behind the first event the same is asked, with one activation more or less open. -/
theorem find?_closesAt_cons {inner' : Nat} (hfirst : closesAt id inner (e :: later) (e, 0) = false)
    (hcount : ∀ i, activations id (later.take (i + 1)) + inner' < deactivations id (later.take (i + 1)) ↔
      activations id (e :: later.take (i + 1)) + inner < deactivations id (e :: later.take (i + 1))) :
    ((e :: later).zipIdx.find? (closesAt id inner (e :: later))).map Prod.fst =
      (later.zipIdx.find? (closesAt id inner' later)).map Prod.fst := by
  have hshift : (closesAt id inner (e :: later) ∘ fun (x, i) => (x, i + 1)) = closesAt id inner' later := by
    funext x
    exact congrArg (x.1.id == id && !x.1.activates && ·) (decide_eq_decide.2 (hcount x.2).symm)
  rw [List.zipIdx_cons, List.zipIdx_succ, List.find?_cons, hfirst, List.find?_map, hshift, Option.map_map]
  rfl

theorem closesAfter_eq (id : String) (inner : Nat) (later : List ActivationEvent) :
    closesAfter id inner later = (later.zipIdx.find? (closesAt id inner later)).map Prod.fst := by
  induction later generalizing inner with
  | nil => rfl
  | cons e later ih =>
    by_cases hid : e.id = id
    · subst hid
      cases ha : e.activates with
      | true =>
        rw [closesAfter_activation ha, ih]
        refine (find?_closesAt_cons (by simp [closesAt, ha]) fun i => ?_).symm
        simp [activations_cons, deactivations_cons, ha]
        omega
      | false =>
        cases inner with
        | zero =>
          rw [closesAfter_zero ha, List.zipIdx_cons, List.find?_cons]
          simp [closesAt, activations, deactivations, ha]
        | succ inner =>
          rw [closesAfter_succ ha, ih]
          refine (find?_closesAt_cons (by simp [closesAt, activations, deactivations, ha]) fun i => ?_).symm
          simp [activations_cons, deactivations_cons, ha]
          omega
    · rw [closesAfter_other hid, ih]
      refine (find?_closesAt_cons (by simp [closesAt, hid]) fun i => ?_).symm
      simp [activations_cons, deactivations_cons, hid]

theorem closing?_eq (id : String) (later : List ActivationEvent) : closing? id later = closesAfter id 0 later :=
  (closesAfter_eq id 0 later).symm

end closesAfter

/-! ## The pass over the events -/

/-- A found span as the events to come leave it, when some spans of its participant are open
inside it. -/
def FoundSpan.settle (inner : Nat) (later : List ActivationEvent) (s : FoundSpan) : FoundSpan :=
  { s with closedAt := s.closedAt.or ((closesAfter s.id inner later).map ActivationEvent.order) }

/-- The numbers of open spans with one more of a participant. -/
def oneMore (id : String) (inner : String → Nat) : String → Nat := fun x => if id == x then inner x + 1 else inner x

/-- Found spans, latest first, as the events to come leave them, with the numbers of spans that are
open inside them. -/
def settleAll (later : List ActivationEvent) (inner : String → Nat) : List FoundSpan → List FoundSpan
  | [] => []
  | s :: outer => s.settle (inner s.id) later :: settleAll later (if s.closedAt.isNone then oneMore s.id inner else inner) outer

section settleAll

variable {e : ActivationEvent} {later : List ActivationEvent} {inner : String → Nat}

theorem settleAll_nil (inner : String → Nat) (spans : List FoundSpan) : settleAll [] inner spans = spans := by
  induction spans generalizing inner with
  | nil => rfl
  | cons s outer ih => simp [settleAll, FoundSpan.settle, closesAfter, ih]

theorem oneMore_comm (id id' : String) (inner : String → Nat) : oneMore id (oneMore id' inner) = oneMore id' (oneMore id inner) := by
  funext x
  by_cases h : id = x <;> by_cases h' : id' = x <;> simp [oneMore, h, h']

/-- An activation is one more that is open inside all spans of its participant. -/
theorem settleAll_activation (ha : e.activates = true) (spans : List FoundSpan) :
    settleAll (e :: later) inner spans = settleAll later (oneMore e.id inner) spans := by
  induction spans generalizing inner with
  | nil => rfl
  | cons s outer ih =>
    have hs : s.settle (inner s.id) (e :: later) = s.settle (oneMore e.id inner s.id) later := by
      unfold FoundSpan.settle oneMore
      by_cases hid : e.id = s.id
      · simp [← hid, closesAfter_activation ha]
      · simp [hid, closesAfter_other hid]
    simp only [settleAll, hs, ih]
    cases s.closedAt <;> simp [oneMore_comm]

/-- A deactivation closes one that is open inside, if there is one. -/
theorem settleAll_oneMore (ha : e.activates = false) (spans : List FoundSpan) :
    settleAll (e :: later) (oneMore e.id inner) spans = settleAll later inner spans := by
  induction spans generalizing inner with
  | nil => rfl
  | cons s outer ih =>
    have hs : s.settle (oneMore e.id inner s.id) (e :: later) = s.settle (inner s.id) later := by
      unfold FoundSpan.settle oneMore
      by_cases hid : e.id = s.id
      · simp [← hid, closesAfter_succ ha]
      · simp [hid, closesAfter_other hid]
    simp only [settleAll, hs]
    cases s.closedAt <;> simp [oneMore_comm s.id, ih]

/-- A deactivation of a participant of which nothing is open inside closes its latest open span. -/
theorem settleAll_closeLatest (ha : e.activates = false) (h0 : inner e.id = 0) (spans : List FoundSpan) :
    settleAll (e :: later) inner spans = settleAll later inner (closeLatest e.id e.order spans) := by
  induction spans generalizing inner with
  | nil => rfl
  | cons s outer ih =>
    unfold closeLatest
    cases hopen : s.isOpenFor e.id with
    | true =>
      obtain ⟨hid, hnone⟩ : s.id = e.id ∧ s.closedAt = none := by simpa [FoundSpan.isOpenFor] using hopen
      simp [settleAll, FoundSpan.settle, hid, h0, hnone, closesAfter_zero ha, settleAll_oneMore ha]
    | false =>
      simp only [Bool.false_eq_true, if_false, settleAll]
      cases hclosed : s.closedAt with
      | some order => simp [FoundSpan.settle, hclosed, ih h0]
      | none =>
        have hid : e.id ≠ s.id := by
          rintro hid
          simp [FoundSpan.isOpenFor, hid, hclosed] at hopen
        have h0' : oneMore s.id inner e.id = 0 := by simp [oneMore, hid.symm, h0]
        simp [FoundSpan.settle, closesAfter_other hid, ih h0']

end settleAll

theorem closeLatest_of_none {id : String} {order : Int} {spans : List FoundSpan} (h : ∀ s ∈ spans, s.isOpenFor id = false) :
    closeLatest id order spans = spans := by
  induction spans with
  | nil => rfl
  | cons s spans ih =>
    obtain ⟨hs, hspans⟩ := List.forall_mem_cons.1 h
    simp [closeLatest, hs, ih hspans]

/-- The spans after one more event, an idle deactivation among them. -/
theorem SpanPass.spans_step (pass : SpanPass) (e : ActivationEvent) : (pass.step e).spans =
    if e.activates then { id := e.id, start := e.order, depth := pass.spans.countP (FoundSpan.isOpenFor e.id) } :: pass.spans
    else closeLatest e.id e.order pass.spans := by
  unfold SpanPass.step
  cases e.activates with
  | true => rfl
  | false =>
    simp only [Bool.false_eq_true, if_false]
    split
    · rename_i hidle
      refine (closeLatest_of_none fun s hs => ?_).symm
      exact Bool.eq_false_iff.2 (List.countP_eq_zero.1 (beq_iff_eq.1 hidle) s hs)
    · rfl

/-- The spans that are found along some events, in order, as the events behind them leave them. -/
def foundAlong (pass : SpanPass) : List ActivationEvent → List FoundSpan
  | [] => []
  | e :: later =>
    let further := foundAlong (pass.step e) later
    if e.activates then
      { id := e.id, start := e.order, depth := pass.spans.countP (FoundSpan.isOpenFor e.id)
        closedAt := (closesAfter e.id 0 later).map ActivationEvent.order } :: further
    else further

/-- A pass over some events settles the spans that it begins with, and finds one for every
activation. -/
theorem spans_foldl (pass : SpanPass) (events : List ActivationEvent) : (events.foldl SpanPass.step pass).spans =
    (foundAlong pass events).reverse ++ settleAll events (fun _ => 0) pass.spans := by
  induction events generalizing pass with
  | nil => simp [foundAlong, settleAll_nil]
  | cons e later ih =>
    rw [List.foldl_cons, ih, SpanPass.spans_step, foundAlong]
    cases ha : e.activates with
    | true => simp [settleAll, FoundSpan.settle, settleAll_activation ha]
    | false => simp [settleAll_closeLatest ha]

/-- One span is found for every activation, with its place among the events. -/
theorem foundAlong_eq (pass : SpanPass) (events : List ActivationEvent) : foundAlong pass events =
    (events.zipIdx.filter fun (e, _) => e.activates).map fun (e, i) =>
      { id := e.id, start := e.order, depth := ((events.take i).foldl SpanPass.step pass).spans.countP (FoundSpan.isOpenFor e.id)
        closedAt := (closesAfter e.id 0 (events.drop (i + 1))).map ActivationEvent.order } := by
  induction events generalizing pass with
  | nil => rfl
  | cons e later ih =>
    have hshift : ((fun (e, _) => e.activates) ∘ fun (x, i) => (x, i + 1)) =
      fun (x : ActivationEvent × Nat) => x.1.activates := rfl
    rw [foundAlong, ih, List.zipIdx_cons, List.zipIdx_succ, List.filter_cons, List.filter_map, hshift]
    cases ha : e.activates <;> simp [ha, Function.comp_def]

/-- As many spans are open after some events as the count says. -/
theorem openCount_eq (id : String) (events : List ActivationEvent) :
    (events.foldl SpanPass.step {}).spans.countP (FoundSpan.isOpenFor id) = openCount id events := by
  have hspans : (events.foldl SpanPass.step {}).spans = (foundAlong {} events).reverse := by
    rw [spans_foldl]
    exact List.append_nil _
  rw [hspans, List.countP_reverse, foundAlong_eq, List.countP_map, List.countP_filter]
  refine List.countP_congr fun x _ => ?_
  obtain ⟨e, i⟩ := x
  simp only [Function.comp_apply, FoundSpan.isOpenFor, closing?_eq]
  by_cases hid : e.id = id
  · subst hid
    simp [and_comm]
  · simp [hid]

/-! ## Spans apart and within -/

/-- Up to some event an activation is closed, or else what follows closes it from some depth. -/
theorem closesAfter_append (id : String) (inner : Nat) (mid : List ActivationEvent) :
    (∃ x ∈ mid, ∀ later, closesAfter id inner (mid ++ later) = some x) ∨
      ∃ inner', ∀ later, closesAfter id inner (mid ++ later) = closesAfter id inner' later := by
  induction mid generalizing inner with
  | nil => exact .inr ⟨inner, fun _ => rfl⟩
  | cons e mid ih =>
    have hstep : ∀ inner', (∀ later, closesAfter id inner (e :: mid ++ later) = closesAfter id inner' (mid ++ later)) →
        (∃ x ∈ e :: mid, ∀ later, closesAfter id inner (e :: mid ++ later) = some x) ∨
          ∃ inner', ∀ later, closesAfter id inner (e :: mid ++ later) = closesAfter id inner' later := by
      intro inner' he
      refine (ih inner').imp ?_ ?_
      · rintro ⟨x, hx, hclose⟩
        exact ⟨x, List.mem_cons_of_mem e hx, fun later => (he later).trans (hclose later)⟩
      · rintro ⟨depth, hdepth⟩
        exact ⟨depth, fun later => (he later).trans (hdepth later)⟩
    by_cases hid : e.id = id
    · subst hid
      cases ha : e.activates with
      | true => exact hstep (inner + 1) fun _ => closesAfter_activation ha
      | false =>
        cases inner with
        | zero => exact .inl ⟨e, List.mem_cons_self, fun _ => closesAfter_zero ha⟩
        | succ inner => exact hstep inner fun _ => closesAfter_succ ha
    · exact hstep inner fun _ => closesAfter_other hid

/-- Where an activation is closed, or the end of the timeline. -/
def closingOrder (length : Nat) (id : String) (inner : Nat) (later : List ActivationEvent) : Int :=
  ((closesAfter id inner later).map ActivationEvent.order).getD length

/-- The more is open inside an activation, the later it is closed. -/
theorem closingOrder_mono {length : Nat} (id : String) {inner inner' : Nat} (hle : inner ≤ inner')
    {later : List ActivationEvent} (hp : later.Pairwise fun x y => x.order ≤ y.order) (hlt : ∀ x ∈ later, x.order < length) :
    closingOrder length id inner later ≤ closingOrder length id inner' later := by
  induction later generalizing inner inner' with
  | nil => exact Int.le_refl _
  | cons e later ih =>
    obtain ⟨hfirst, hp⟩ := List.pairwise_cons.1 hp
    obtain ⟨he, hlt⟩ := List.forall_mem_cons.1 hlt
    unfold closingOrder at ih ⊢
    by_cases hid : e.id = id
    · subst hid
      cases ha : e.activates with
      | true =>
        rw [closesAfter_activation ha, closesAfter_activation ha]
        exact ih (Nat.succ_le_succ hle) hp hlt
      | false =>
        cases inner' with
        | zero =>
          obtain rfl := Nat.le_zero.1 hle
          exact Int.le_refl _
        | succ inner' =>
          cases inner with
          | zero =>
            rw [closesAfter_zero ha, closesAfter_succ ha]
            cases hc : closesAfter e.id inner' later with
            | none => exact Int.le_of_lt he
            | some x => exact hfirst x (mem_of_closesAfter hc)
          | succ inner =>
            rw [closesAfter_succ ha, closesAfter_succ ha]
            exact ih (Nat.le_of_succ_le_succ hle) hp hlt
    · rw [closesAfter_other hid, closesAfter_other hid]
      exact ih hle hp hlt

theorem Statement.order_of_events (item : Statement) : ∀ e ∈ item.events, e.order = item.order := by
  have hend : ∀ (p : Endpoint) (order : Int), ∀ e ∈ (p.event? order).toList, e.order = order := by
    intro p order e he
    unfold Endpoint.event? at he
    split at he
    · simp at he
      rw [he]
    · split at he
      · simp at he
        rw [he]
      · simp at he
  cases item with
  | message m => exact List.forall_mem_append.2 ⟨hend m.source m.order, hend m.target m.order⟩
  | directive x => cases hk : x.kind <;> simp [Statement.events, hk, Statement.order]
  | _ => exact List.forall_mem_nil _

namespace Diagram

variable {m : Diagram}

/-- What the pass finds is the spans of the activations, in order. -/
theorem spanPass_spans (m : Diagram) (h : ∀ e ∈ m.events, 0 ≤ e.order) :
    m.spanPass.spans.reverse.map (FoundSpan.finish m.timeline.length) =
      (m.events.zipIdx.filter fun (e, _) => e.activates).map fun (e, place) => m.spanAt e place := by
  have hspans : m.spanPass.spans.reverse = foundAlong {} m.events := by
    rw [spanPass, spans_foldl]
    simp [settleAll]
  rw [hspans, foundAlong_eq, List.map_map]
  refine List.map_congr_left fun x _ => ?_
  obtain ⟨e, place⟩ := x
  simp only [Function.comp_apply, FoundSpan.finish, spanAt, openCount_eq, closing?_eq]
  cases hc : closesAfter e.id 0 (m.events.drop (place + 1)) with
  | none => rfl
  | some x =>
    have hx : ¬x.order < 0 := Int.not_lt.2 (h x (List.mem_of_mem_drop (mem_of_closesAfter hc)))
    simp [hx]

/-- If every item has its place as its order, the events of a diagram are in order, and within its
timeline. -/
theorem events_inOrder (h : ∀ i (hi : i < m.timeline.length), m.timeline[i].order = i) :
    m.events.Pairwise (fun x y => x.order ≤ y.order) ∧ ∀ e ∈ m.events, 0 ≤ e.order ∧ e.order < m.timeline.length := by
  refine ⟨List.pairwise_flatMap.2 ⟨fun item _ => ?_, List.pairwise_iff_getElem.2 fun i j hi hj hij => ?_⟩, fun e he => ?_⟩
  · refine List.pairwise_of_forall_mem_list fun x hx y hy => Int.le_of_eq ?_
    exact (item.order_of_events x hx).trans (item.order_of_events y hy).symm
  · intro x hx y hy
    rw [Statement.order_of_events _ x hx, Statement.order_of_events _ y hy, h i hi, h j hj]
    omega
  · obtain ⟨item, hitem, he⟩ := List.mem_flatMap.1 he
    obtain ⟨i, hi, rfl⟩ := List.getElem_of_mem hitem
    rw [Statement.order_of_events _ e he, h i hi]
    omega

theorem spans_perm (h : ∀ e ∈ m.events, 0 ≤ e.order) : m.spans.Perm
    ((m.events.zipIdx.filter fun (e, _) => e.activates).map fun (e, place) => m.spanAt e place) := by
  rw [← spanPass_spans m h]
  exact List.mergeSort_perm _ _

theorem spans_sorted (m : Diagram) : m.spans.Pairwise fun s t => s.start < t.start ∨ s.start = t.start ∧ s.depth ≤ t.depth := by
  have hprecedes : ∀ s t : Span, s.precedes t = true ↔ s.start < t.start ∨ s.start = t.start ∧ s.depth ≤ t.depth := by
    intro s t
    simp [Span.precedes]
  have hsorted : m.spans.Pairwise fun s t => s.precedes t = true := by
    refine List.pairwise_mergeSort (fun s t u hst htu => ?_) (fun s t => ?_) _
    · rw [hprecedes] at hst htu ⊢
      omega
    · rw [Bool.or_eq_true, hprecedes, hprecedes]
      omega
  exact hsorted.imp fun hst => (hprecedes _ _).1 hst

/-- Of two activations of a participant the span of the later one lies within that of the earlier
one, or begins when that one has ended. -/
theorem spanAt_nests (h : ∀ i (hi : i < m.timeline.length), m.timeline[i].order = i) {e f : ActivationEvent} {i j : Nat}
    (he : m.events[i]? = some e) (hf : m.events[j]? = some f) (hij : i < j) (ha : f.activates = true) (hid : e.id = f.id) :
    (m.spanAt e i).Nests (m.spanAt f j) := by
  obtain ⟨hp, hbounds⟩ := events_inOrder h
  obtain ⟨hi, rfl⟩ := List.getElem?_eq_some_iff.1 he
  obtain ⟨hj, rfl⟩ := List.getElem?_eq_some_iff.1 hf
  obtain ⟨mid, hdrop⟩ : ∃ mid, m.events.drop (i + 1) = mid ++ m.events[j] :: m.events.drop (j + 1) := by
    refine ⟨(m.events.drop (i + 1)).take (j - (i + 1)), ?_⟩
    rw [← List.drop_eq_getElem_cons hj]
    conv_lhs => rw [← List.take_append_drop (j - (i + 1)) (m.events.drop (i + 1)), List.drop_drop]
    rw [show i + 1 + (j - (i + 1)) = j by omega]
  have hafter : (m.events.drop i).Pairwise fun x y => x.order ≤ y.order := hp.sublist (List.drop_sublist _ _)
  rw [List.drop_eq_getElem_cons hi, hdrop, List.pairwise_cons, List.pairwise_append] at hafter
  obtain ⟨hfirst, -, hrest, hmid⟩ := hafter
  have hstart := hfirst m.events[j] (List.mem_append_right _ List.mem_cons_self)
  simp only [Span.Nests, spanAt, closing?_eq, hdrop]
  rcases closesAfter_append m.events[i].id 0 mid with ⟨x, hx, hclose⟩ | ⟨inner, hclose⟩
  · rw [hclose]
    exact .inr (.inr (.inl (hmid x hx _ List.mem_cons_self)))
  · rw [hclose, hid, closesAfter_activation ha]
    refine .inl ⟨hstart, closingOrder_mono _ (Nat.zero_le _) (List.pairwise_cons.1 hrest).2 fun x hx => ?_⟩
    exact (hbounds x (List.mem_of_mem_drop hx)).2

/-! ## Main theorem -/

/-- In a diagram whose items have their places as orders, every activation has one span, which
begins with it, ends with the first later deactivation of the participant at which more
deactivations than activations of it have followed, or else with the timeline, and is as deep as
spans of the participant are open before it. The spans are in the order of their starts and
depths, and of two spans of one participant one lies within the other, or they lie apart. -/
theorem spans_match (m : Diagram) (h : ∀ i (hi : i < m.timeline.length), m.timeline[i].order = i) :
    m.spans.Perm ((m.events.zipIdx.filter fun (e, _) => e.activates).map fun (e, place) => m.spanAt e place) ∧
      (m.spans.Pairwise fun s t => s.start < t.start ∨ s.start = t.start ∧ s.depth ≤ t.depth) ∧
      ∀ s ∈ m.spans, ∀ t ∈ m.spans, s.id = t.id → s.Nests t := by
  have hperm := spans_perm fun e he => ((events_inOrder h).2 e he).1
  refine ⟨hperm, spans_sorted m, fun s hs t ht hid => ?_⟩
  have hplace : ∀ {s}, s ∈ m.spans → ∃ e place, m.events[place]? = some e ∧ e.activates = true ∧ s = m.spanAt e place := by
    intro s hs
    obtain ⟨⟨e, place⟩, he, rfl⟩ := List.mem_map.1 (hperm.mem_iff.1 hs)
    obtain ⟨he, ha⟩ := List.mem_filter.1 he
    exact ⟨e, place, List.mem_zipIdx_iff_getElem?.1 he, ha, rfl⟩
  obtain ⟨e, i, he, hae, rfl⟩ := hplace hs
  obtain ⟨f, j, hf, haf, rfl⟩ := hplace ht
  rcases Nat.lt_trichotomy i j with hij | rfl | hij
  · exact spanAt_nests h he hf hij haf hid
  · obtain rfl := Option.some.inj (he.symm.trans hf)
    exact .inl ⟨Int.le_refl _, Int.le_refl _⟩
  · have := spanAt_nests h hf he hij hae hid.symm
    unfold Span.Nests at this ⊢
    tauto

/-- Two participants, with a message that both ends and begins an activation, an idle deactivation
and an activation that is not closed. -/
def overlaps : Diagram where
  timeline := [
    .directive { kind := .deactivate, id := "A", order := 0 },
    .message { source := { id := "B" }, target := { id := "A", activates := true }, order := 1 },
    .message { source := { id := "A", activates := true }, target := { id := "A", activates := true }, order := 2 },
    .message { source := { id := "A", deactivates := true }, target := { id := "B", activates := true }, order := 3 },
    .directive { kind := .deactivate, id := "A", order := 4 }]

theorem spans_match_overlaps : (∀ i (hi : i < overlaps.timeline.length), overlaps.timeline[i].order = i) ∧
    overlaps.spans.Perm [⟨"A", 1, 5, 0⟩, ⟨"A", 2, 4, 1⟩, ⟨"A", 2, 3, 2⟩, ⟨"B", 3, 5, 0⟩] := by
  have h : ∀ i (hi : i < overlaps.timeline.length), overlaps.timeline[i].order = i := by decide
  exact ⟨h, (spans_match overlaps h).1.trans (.of_eq (by decide))⟩

end Diagram

end Lifeline
