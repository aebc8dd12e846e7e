import Lifeline.Proofs.Spans
/-!
# Who is active when

Whether a participant is active at an order can be told without its spans, by a counter that an
activation raises and a deactivation lowers, though not below zero: what the counter shows before
the item, and the activations of the item itself (`Diagram.active_counts`).

A span covers an order if it begins no later and is not closed before. Up to the order, the spans
that are not closed are as many as the counter shows. From there on no span is closed too early,
and only the item at the order begins further ones in time.
-/

namespace Lifeline

/-- How deep a participant is active after an event, when it was as deep as given before. A
deactivation of a participant that is not active changes nothing. -/
def depthAfter (id : String) (depth : Nat) (e : ActivationEvent) : Nat :=
  if e.id == id then if e.activates then depth + 1 else depth - 1 else depth

/-- How deep a participant is active after some events. -/
def activeDepth (id : String) (events : List ActivationEvent) : Nat := events.foldl (depthAfter id) 0

/-! ## The counter -/

section counter

variable {id id' : String} {order : Int}

theorem isOpenFor_close (s : FoundSpan) : ({ s with closedAt := some order } : FoundSpan).isOpenFor id = false := by
  simp [FoundSpan.isOpenFor]

/-- To close the latest open span of a participant leaves one less open, if one was. -/
theorem countP_isOpenFor_closeLatest (id : String) (order : Int) (spans : List FoundSpan) :
    (closeLatest id order spans).countP (FoundSpan.isOpenFor id) = spans.countP (FoundSpan.isOpenFor id) - 1 := by
  induction spans with
  | nil => rfl
  | cons s spans ih =>
    unfold closeLatest
    cases hs : s.isOpenFor id with
    | true => simp [isOpenFor_close, hs]
    | false => simp [hs, ih]

/-- To close a span of a participant leaves those of the others open. -/
theorem countP_isOpenFor_closeLatest_other (h : id' ≠ id) (spans : List FoundSpan) :
    (closeLatest id' order spans).countP (FoundSpan.isOpenFor id) = spans.countP (FoundSpan.isOpenFor id) := by
  induction spans with
  | nil => rfl
  | cons s spans ih =>
    unfold closeLatest
    cases hs : s.isOpenFor id' with
    | true =>
      have hid : s.isOpenFor id = false := by
        have hs : s.id = id' ∧ s.closedAt = none := by simpa [FoundSpan.isOpenFor] using hs
        simp [FoundSpan.isOpenFor, hs, h]
      simp [isOpenFor_close, hid]
    | false => simp [List.countP_cons, ih]

/-- An event changes the number of open spans as it changes the counter. -/
theorem SpanPass.countP_step (pass : SpanPass) (e : ActivationEvent) (id : String) :
    (pass.step e).spans.countP (FoundSpan.isOpenFor id) = depthAfter id (pass.spans.countP (FoundSpan.isOpenFor id)) e := by
  rw [SpanPass.spans_step]
  unfold depthAfter
  by_cases hid : e.id = id
  · subst hid
    cases e.activates with
    | true => simp [FoundSpan.isOpenFor]
    | false => simpa using countP_isOpenFor_closeLatest e.id e.order pass.spans
  · cases e.activates with
    | true => simp [FoundSpan.isOpenFor, hid]
    | false => simpa [hid] using countP_isOpenFor_closeLatest_other hid pass.spans

/-- After some events as many spans are open as the counter shows. -/
theorem countP_foldl_step (pass : SpanPass) (events : List ActivationEvent) (id : String) :
    (events.foldl SpanPass.step pass).spans.countP (FoundSpan.isOpenFor id) =
      events.foldl (depthAfter id) (pass.spans.countP (FoundSpan.isOpenFor id)) := by
  induction events generalizing pass with
  | nil => rfl
  | cons e events ih => rw [List.foldl_cons, List.foldl_cons, ih, SpanPass.countP_step]

end counter

/-! ## Orders of spans -/

/-- The orders at which spans begin and are closed. -/
def SpanPass.orders (pass : SpanPass) : List Int := pass.spans.flatMap fun s => s.start :: s.closedAt.toList

theorem orders_closeLatest {P : Int → Prop} {id : String} {order : Int} (ho : P order) {spans : List FoundSpan}
    (h : ∀ x ∈ spans.flatMap fun s => s.start :: s.closedAt.toList, P x) :
    ∀ x ∈ (closeLatest id order spans).flatMap fun s => s.start :: s.closedAt.toList, P x := by
  induction spans with
  | nil => exact h
  | cons s spans ih =>
    simp only [List.flatMap_cons, List.forall_mem_append] at h
    unfold closeLatest
    split
    · simp only [List.flatMap_cons, List.forall_mem_append]
      exact ⟨by simpa [ho] using h.1 s.start (by simp), h.2⟩
    · simp only [List.flatMap_cons, List.forall_mem_append]
      exact ⟨h.1, ih h.2⟩

/-- Spans begin and are closed at the orders of events. -/
theorem orders_foldl {P : Int → Prop} {events : List ActivationEvent} (he : ∀ e ∈ events, P e.order) {pass : SpanPass}
    (h : ∀ x ∈ pass.orders, P x) : ∀ x ∈ (events.foldl SpanPass.step pass).orders, P x := by
  induction events generalizing pass with
  | nil => exact h
  | cons e events ih =>
    obtain ⟨hfirst, he⟩ := List.forall_mem_cons.1 he
    refine ih he ?_
    unfold SpanPass.orders at h ⊢
    rw [SpanPass.spans_step]
    split
    · simpa [hfirst] using h
    · exact orders_closeLatest hfirst h

theorem orders_empty {P : Int → Prop} : ∀ x ∈ ({} : SpanPass).orders, P x := by simp [SpanPass.orders]

/-! ## Spans that reach an order -/

/-- Whether a span of the participant begins no later than an order and is not closed before. -/
def FoundSpan.reaches (id : String) (order : Int) (s : FoundSpan) : Bool :=
  s.id == id && decide (s.start ≤ order) && s.closedAt.all fun stop => decide (order ≤ stop)

section reaches

variable {id : String} {order : Int}

theorem countP_reaches_closeLatest {id' : String} {stop : Int} (hs : order ≤ stop) (spans : List FoundSpan) :
    (closeLatest id' stop spans).countP (FoundSpan.reaches id order) = spans.countP (FoundSpan.reaches id order) := by
  induction spans with
  | nil => rfl
  | cons s spans ih =>
    unfold closeLatest
    split
    · rename_i hopen
      have hopen : s.id = id' ∧ s.closedAt = none := by simpa [FoundSpan.isOpenFor] using hopen
      have : ({ s with closedAt := some stop } : FoundSpan).reaches id order = s.reaches id order := by
        simp [FoundSpan.reaches, hopen, hs]
      rw [List.countP_cons, List.countP_cons, this]
    · rw [List.countP_cons, List.countP_cons, ih]

/-- From an order on, the spans that reach it are those that did before, and those that begin at
it. -/
theorem countP_reaches_foldl {events : List ActivationEvent} (he : ∀ e ∈ events, order ≤ e.order) (pass : SpanPass) :
    (events.foldl SpanPass.step pass).spans.countP (FoundSpan.reaches id order) =
      pass.spans.countP (FoundSpan.reaches id order) + activations id (events.filter fun e => decide (e.order = order)) := by
  induction events generalizing pass with
  | nil => rfl
  | cons e events ih =>
    obtain ⟨hfirst, he⟩ := List.forall_mem_cons.1 he
    rw [List.foldl_cons, ih he, SpanPass.spans_step]
    cases ha : e.activates with
    | false =>
      rw [if_neg Bool.false_ne_true, countP_reaches_closeLatest hfirst]
      simp [activations, List.countP_filter, ha]
    | true =>
      have hle : e.order ≤ order ↔ e.order = order := by omega
      rw [if_pos rfl]
      simp [activations, List.countP_filter, List.countP_cons, FoundSpan.reaches, ha, hle]
      omega

/-- Of spans that begin and are closed before an order those reach it that are still open. -/
theorem countP_reaches_before {pass : SpanPass} (h : ∀ x ∈ pass.orders, x < order) :
    pass.spans.countP (FoundSpan.reaches id order) = pass.spans.countP (FoundSpan.isOpenFor id) := by
  refine List.countP_congr fun s hs => ?_
  have hstart : s.start < order := h _ (List.mem_flatMap.2 ⟨s, hs, by simp⟩)
  have hle := Int.le_of_lt hstart
  cases hc : s.closedAt with
  | none => simp [FoundSpan.reaches, FoundSpan.isOpenFor, hc, hle]
  | some stop =>
    have hstop : stop < order := h _ (List.mem_flatMap.2 ⟨s, hs, by simp [hc]⟩)
    simp [FoundSpan.reaches, FoundSpan.isOpenFor, hc, hstop]

/-- A finished span covers an order of the timeline if it reaches it. -/
theorem FoundSpan.covers_finish {length : Nat} {s : FoundSpan} (ho : order < length) (hc : ∀ stop ∈ s.closedAt, 0 ≤ stop) :
    ((s.finish length).covers order && (s.finish length).id == id) = s.reaches id order := by
  have hstop : (s.finish length).stop = s.closedAt.getD length := by
    unfold finish
    cases h : s.closedAt with
    | none => rfl
    | some stop => simp [Int.not_lt.2 (hc stop h)]
  have hwithin : decide (order ≤ s.closedAt.getD length) = s.closedAt.all fun stop => decide (order ≤ stop) := by
    cases s.closedAt with
    | none => simpa using Int.le_of_lt ho
    | some stop => rfl
  rw [Span.covers, hstop, hwithin, Bool.and_comm, reaches, Bool.and_assoc]
  rfl

end reaches

/-! ## Main theorem -/

namespace Diagram

variable {m : Diagram}

/-- A participant is listed as active with the number of its spans that cover the order. -/
theorem mem_activeAt {order : Int} {id : String} {n : Nat} : (id, n) ∈ m.activeAt order ↔
    n = m.spans.countP (fun s => s.covers order && s.id == id) ∧ n ≠ 0 := by
  have hcount : ((m.spans.filter fun s => s.covers order).map Span.id).count id =
      m.spans.countP fun s => s.covers order && s.id == id := by
    rw [List.count, List.countP_map, List.countP_filter]
    exact List.countP_congr fun s _ => by simp [and_comm]
  unfold activeAt
  rw [← hcount]
  constructor
  · intro h
    obtain ⟨id', hid, he⟩ := List.mem_map.1 h
    cases he
    exact ⟨rfl, Nat.ne_of_gt (List.count_pos_iff.2 (mem_sortedSet.1 hid))⟩
  · rintro ⟨rfl, hn⟩
    exact List.mem_map.2 ⟨id, mem_sortedSet.2 (List.count_pos_iff.1 (Nat.pos_of_ne_zero hn)), rfl⟩

/-- Each participant is listed once. -/
theorem nodup_activeAt (m : Diagram) (order : Int) : ((m.activeAt order).map Prod.fst).Nodup := by
  unfold activeAt
  rw [List.map_map, Function.comp_def, List.map_id']
  exact (pairwise_sortedSet _).imp Std.ne_of_lt

/-- The spans of a participant that cover an order are the found ones that reach it. -/
theorem countP_covers (h : ∀ e ∈ m.events, 0 ≤ e.order) {order : Int} (ho : order < m.timeline.length) (id : String) :
    m.spans.countP (fun s => s.covers order && s.id == id) = m.spanPass.spans.countP (FoundSpan.reaches id order) := by
  have hclosed : ∀ x ∈ m.spanPass.orders, 0 ≤ x := orders_foldl h orders_empty
  rw [spans, (List.mergeSort_perm _ _).countP_eq, List.countP_map, List.countP_reverse]
  refine List.countP_congr fun s hs => ?_
  rw [Function.comp_apply, FoundSpan.covers_finish ho fun stop hstop => ?_]
  exact hclosed stop (List.mem_flatMap.2 ⟨s, hs, by simp [Option.mem_def.1 hstop]⟩)

/-- The events before, at and behind a place of the timeline. -/
theorem events_split {place : Nat} (hp : place < m.timeline.length) : m.events =
    (m.timeline.take place).flatMap Statement.events ++
      (m.timeline[place].events ++ (m.timeline.drop (place + 1)).flatMap Statement.events) := by
  have hdrop : m.timeline[place].events ++ (m.timeline.drop (place + 1)).flatMap Statement.events =
      (m.timeline.drop place).flatMap Statement.events := by
    rw [List.drop_eq_getElem_cons hp, List.flatMap_cons]
  rw [hdrop, ← List.flatMap_append, List.take_append_drop, events]

section places

variable (h : ∀ i (hi : i < m.timeline.length), m.timeline[i].order = i) {place : Nat}
include h

theorem order_before : ∀ e ∈ (m.timeline.take place).flatMap Statement.events, e.order < place := by
  intro e he
  obtain ⟨item, hitem, he⟩ := List.mem_flatMap.1 he
  obtain ⟨i, hi, rfl⟩ := List.mem_take_iff_getElem.1 hitem
  rw [Statement.order_of_events _ e he, h i (by omega)]
  omega

theorem order_behind : ∀ e ∈ (m.timeline.drop (place + 1)).flatMap Statement.events, place < e.order := by
  intro e he
  obtain ⟨item, hitem, he⟩ := List.mem_flatMap.1 he
  obtain ⟨i, hi, rfl⟩ := List.mem_drop_iff_getElem.1 hitem
  rw [Statement.order_of_events _ e he, h (place + 1 + i) (by omega)]
  omega

theorem order_at (hp : place < m.timeline.length) : ∀ e ∈ m.timeline[place].events, e.order = place := by
  intro e he
  rw [Statement.order_of_events _ e he, h place hp]

/-- The spans that reach a place are those that are open before it, and those that begin there. -/
theorem countP_reaches (hp : place < m.timeline.length) (id : String) :
    m.spanPass.spans.countP (FoundSpan.reaches id place) =
      activeDepth id ((m.timeline.take place).flatMap Statement.events) + activations id m.timeline[place].events := by
  have hbefore : ∀ e ∈ (m.timeline.take place).flatMap Statement.events, e.order < place := order_before h
  have hat : ∀ e ∈ m.timeline[place].events, e.order = place := order_at h hp
  have hbehind : ∀ e ∈ (m.timeline.drop (place + 1)).flatMap Statement.events, place < e.order := order_behind h
  rw [spanPass, events_split hp]
  generalize (m.timeline.take place).flatMap Statement.events = before at hbefore ⊢
  generalize m.timeline[place].events = now at hat ⊢
  generalize (m.timeline.drop (place + 1)).flatMap Statement.events = behind at hbehind ⊢
  have hfrom : ∀ e ∈ now ++ behind, (place : Int) ≤ e.order := fun e he => by
    rcases List.mem_append.1 he with he | he
    · exact Int.le_of_eq (hat e he).symm
    · exact Int.le_of_lt (hbehind e he)
  have hnow : ((now ++ behind).filter fun e => decide (e.order = (place : Int))) = now := by
    rw [List.filter_append, List.filter_eq_self.2 (by simpa using hat), List.filter_eq_nil_iff.2, List.append_nil]
    intro e he
    simpa using (Int.ne_of_lt (hbehind e he)).symm
  rw [List.foldl_append, countP_reaches_foldl hfrom, hnow, countP_reaches_before (orders_foldl hbefore orders_empty),
    countP_foldl_step]
  rfl

end places

/-- In a diagram whose items have their places as orders, the participants that are active at a
place of the timeline are those of which the counter shows something before the item or that the
item activates, each listed once, with the depth before the item and the activations in it. -/
theorem active_counts (m : Diagram) (h : ∀ i (hi : i < m.timeline.length), m.timeline[i].order = i) {place : Nat}
    (hp : place < m.timeline.length) :
    ((m.activeAt place).map Prod.fst).Nodup ∧ ∀ id n, (id, n) ∈ m.activeAt place ↔
      n = activeDepth id ((m.timeline.take place).flatMap Statement.events) + activations id m.timeline[place].events ∧
        n ≠ 0 := by
  refine ⟨m.nodup_activeAt place, fun id n => ?_⟩
  have hnonneg : ∀ e ∈ m.events, 0 ≤ e.order := fun e he => ((events_inOrder h).2 e he).1
  rw [mem_activeAt, countP_covers hnonneg (by omega), countP_reaches h hp]

theorem active_counts_overlaps : (∀ i (hi : i < overlaps.timeline.length), overlaps.timeline[i].order = i) ∧
    2 < overlaps.timeline.length ∧ ("A", 3) ∈ overlaps.activeAt 2 ∧ ∀ n, ("B", n) ∉ overlaps.activeAt 2 := by
  have h : ∀ i (hi : i < overlaps.timeline.length), overlaps.timeline[i].order = i := by decide
  have hp : 2 < overlaps.timeline.length := by decide
  have hcounts := (active_counts overlaps h hp).2
  refine ⟨h, hp, (hcounts "A" 3).2 ⟨rfl, by decide⟩, fun n hn => ?_⟩
  obtain ⟨hzero, hpos⟩ := (hcounts "B" n).1 hn
  exact hpos hzero

end Diagram

end Lifeline
