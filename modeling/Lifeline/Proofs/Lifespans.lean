import Mathlib.Data.List.Basic
import Lifeline.Proofs.Alignment
import Lifeline.Proofs.Marks
import Lifeline.Proofs.Named
/-!
# When participants are created and destroyed

A draft keeps track of creations and destructions with what waits for a message. What comes
of it can be said of the finished timeline: a creation counts from the first message of the
participant after it, a destruction from the one right before it or else from the first after
it, and a message that ends in a cross counts only where no destruction does
(`Draft.lifespans`).
-/

namespace Lifeline

/-! ## Places of a timeline -/

/-- Whether an item is a message that a participant has part in. -/
def Statement.meets (id : String) : Statement → Bool
  | .message m => m.involves id
  | _ => false

/-- Whether an item is a message that ends in a cross at a participant. -/
def Statement.crosses (id : String) : Statement → Bool
  | .message m => m.arrow.isCross && m.target.id == id
  | _ => false

/-- Whether an item destroys a participant. -/
def Statement.destroysId (id : String) : Statement → Bool
  | .directive x => x.kind == .destroy && x.id == id
  | _ => false

/-- Where the items stand that satisfy `p`, in order. -/
def places (p : Statement → Bool) (items : List Statement) : List Nat :=
  (items.zipIdx.filter fun e => p e.1).map Prod.snd

theorem mem_places {p : Statement → Bool} {items : List Statement} {i : Nat} :
    i ∈ places p items ↔ ∃ item, items[i]? = some item ∧ p item = true := by
  simp only [places, List.mem_map, List.mem_filter, List.mem_zipIdx_iff_getElem?, Prod.exists]
  constructor
  · rintro ⟨item, _, ⟨hi, hp⟩, rfl⟩
    exact ⟨item, hi, hp⟩
  · rintro ⟨item, hi, hp⟩
    exact ⟨item, i, ⟨hi, hp⟩, rfl⟩

theorem places_pairwise (p : Statement → Bool) (items : List Statement) : (places p items).Pairwise (· < ·) := by
  refine List.pairwise_map.2 (List.Pairwise.filter _ ?_)
  exact List.pairwise_map.1 (List.zipIdx_map_snd 0 items ▸ List.pairwise_lt_range')

theorem places_concat (p : Statement → Bool) (items : List Statement) (item : Statement) :
    places p (items ++ [item]) = places p items ++ if p item = true then [items.length] else [] := by
  simp only [places, List.zipIdx_append, List.filter_append, List.map_append, List.zipIdx_cons, List.zipIdx_nil,
    List.filter_cons, List.filter_nil, Nat.zero_add]
  split <;> rfl

/-- Items that are told apart from others by `p` stand where their images do. -/
theorem places_map {p : Statement → Bool} {f : Statement → Statement} (h : ∀ item, p (f item) = p item)
    (items : List Statement) : places p (items.map f) = places p items := by
  simp [places, List.zipIdx_map, List.filter_map, Function.comp_def, h]

/-! ## What the places say -/

/-- Where a participant is created and destroyed in a timeline, where the messages stand that
it has part in, and those that end in a cross at it. -/
structure Traces where
  creations : List Nat
  destructions : List Nat
  meetings : List Nat
  crossings : List Nat

namespace Traces

/-- The traces of a participant in a timeline. -/
def of (id : String) (items : List Statement) : Traces where
  creations := places (Statement.createsId id) items
  destructions := places (Statement.destroysId id) items
  meetings := places (Statement.meets id) items
  crossings := places (Statement.crosses id) items

variable (t : Traces)

/-- The first message of the participant after a place. -/
def meetingAfter? (place : Nat) : Option Nat := t.meetings.find? fun i => place < i

/-- The message that a destruction at a place is bound to: the one right before it if the
participant has part in that, and otherwise the first message of the participant after it. -/
def bound? (place : Nat) : Option Nat := (t.meetings.find? fun i => i + 1 == place).or (t.meetingAfter? place)

/-- Where the participant is created: at the message that the last creation leads to which
leads to one, or else at the last creation. -/
def created? : Option Nat := (t.creations.filterMap t.meetingAfter?).getLast?.or t.creations.getLast?

/-- Where the participant is destroyed: at the last message that a destruction is bound to, or
else at the first message that ends in a cross at it, or else at the last destruction. -/
def destroyed? : Option Nat :=
  (t.destructions.filterMap t.bound?).max?.or (t.crossings.head?.or t.destructions.getLast?)

/-- The marks that the traces of a participant tell. -/
def marks : Marks where
  created := (t.creations.filterMap t.meetingAfter?).getLast?.map Int.ofNat
  destroyed := ((t.destructions.filterMap t.bound?).max?.or t.crossings.head?).map Int.ofNat
  awaitingCreate := (t.creations.getLast?.filter fun place => (t.meetingAfter? place).isNone).map Int.ofNat
  awaitingDestroy := (t.destructions.getLast?.filter fun place => (t.bound? place).isNone).map Int.ofNat

/-- What holds of the traces in the first `n` items of a timeline. -/
structure Within (n : Nat) : Prop where
  creations : ∀ i ∈ t.creations, i < n
  destructions : ∀ i ∈ t.destructions, i < n
  meetings : ∀ i ∈ t.meetings, i < n
  ordered : t.destructions.Pairwise (· < ·)
  apart : ∀ i ∈ t.destructions, i ∉ t.meetings

theorem within_of (id : String) (items : List Statement) : (of id items).Within items.length := by
  have hlt {p : Statement → Bool} : ∀ i ∈ places p items, i < items.length := fun i hi => by
    obtain ⟨item, hitem, -⟩ := mem_places.1 hi
    exact (List.getElem?_eq_some_iff.1 hitem).1
  refine ⟨hlt, hlt, hlt, places_pairwise _ items, fun i hi hm => ?_⟩
  obtain ⟨item, hitem, hd⟩ := mem_places.1 hi
  obtain ⟨item', hitem', hm⟩ := mem_places.1 hm
  obtain rfl := Option.some.inj (hitem.symm.trans hitem')
  cases item with
  | message m => cases hd
  | _ => cases hm

/-! ## One more item -/

variable {t} {n : Nat}

theorem meetingAfter?_mem {place i : Nat} (h : t.meetingAfter? place = some i) : i ∈ t.meetings ∧ place < i :=
  ⟨List.mem_of_find?_eq_some h, by simpa using List.find?_some h⟩

theorem bound?_mem {place i : Nat} (h : t.bound? place = some i) : i ∈ t.meetings ∧ place ≤ i + 1 := by
  rcases Option.or_eq_some_iff.1 h with h | ⟨-, h⟩
  · have := List.find?_some h
    exact ⟨List.mem_of_find?_eq_some h, by simp at this; omega⟩
  · obtain ⟨hm, hlt⟩ := meetingAfter?_mem h
    exact ⟨hm, by omega⟩

theorem bound?_isSome {place i : Nat} (hi : i ∈ t.meetings) (hle : place ≤ i + 1) (hne : place ≠ i) :
    (t.bound? place).isSome = true := by
  unfold bound? meetingAfter?
  rw [Option.isSome_or, Bool.or_eq_true, List.find?_isSome, List.find?_isSome]
  by_cases h : i + 1 = place
  · exact .inl ⟨i, hi, by simpa using h⟩
  · exact .inr ⟨i, hi, by simp; omega⟩

/-- Destructions before a message of the participant are bound. -/
theorem Within.bound {i d : Nat} (h : t.Within n) (hi : i ∈ t.meetings) (hd : d ∈ t.destructions) (hle : d ≤ i + 1) :
    (t.bound? d).isSome = true :=
  bound?_isSome hi hle fun he => h.apart d hd (he ▸ hi)

/-- The traces with one more message of the participant. -/
def met (t : Traces) (n : Nat) : Traces := { t with meetings := t.meetings ++ [n] }

theorem meetingAfter?_met {place : Nat} (h : place < n) : (t.met n).meetingAfter? place = (t.meetingAfter? place).or (some n) := by
  simp [meetingAfter?, met, List.find?_append, h]

theorem bound?_met {place : Nat} (h : place < n) : (t.met n).bound? place = (t.bound? place).or (some n) := by
  have hne : (n + 1 == place) = false := by
    rw [beq_eq_false_iff_ne]
    omega
  unfold bound?
  rw [meetingAfter?_met h]
  simp [met, List.find?_append, hne]

theorem created_met (h : t.Within n) : (t.met n).marks.created = (t.marks.meet n).created := by
  have hcreations : (t.met n).creations = t.creations := rfl
  rcases List.eq_nil_or_concat' t.creations with hnil | ⟨early, last, hlast⟩
  · simp [marks, Marks.meet, hcreations, hnil]
  · have hn := h.creations last (by simp [hlast])
    have hlater := meetingAfter?_met (t := t) hn
    cases hafter : t.meetingAfter? last with
    | none => simp [marks, Marks.meet, hcreations, hlast, hlater, hafter]
    | some i => simp [marks, Marks.meet, hcreations, hlast, hlater, hafter]

/-- What is bound is bound where it was by a further message. -/
theorem filterMap_met {places : List Nat} (hn : ∀ d ∈ places, d < n) (h : ∀ d ∈ places, (t.bound? d).isSome = true) :
    places.filterMap (t.met n).bound? = places.filterMap t.bound? := by
  refine List.filterMap_congr fun d hd => ?_
  rw [bound?_met (hn d hd)]
  obtain ⟨i, hi⟩ := Option.isSome_iff_exists.1 (h d hd)
  rw [hi]
  rfl

/-- If the last destruction is bound then all are. -/
theorem Within.all_bound (h : t.Within n) {early : List Nat} {last : Nat} (hlast : t.destructions = early ++ [last])
    (hbound : (t.bound? last).isSome = true) : ∀ d ∈ t.destructions, (t.bound? d).isSome = true := by
  intro d hd
  obtain ⟨i, hi⟩ := Option.isSome_iff_exists.1 hbound
  obtain ⟨hm, hle⟩ := bound?_mem hi
  refine h.bound hm hd ?_
  have hordered := h.ordered
  rw [hlast] at hd hordered
  rcases List.mem_append.1 hd with hd | hd
  · have := (List.pairwise_append.1 hordered).2.2 d hd last (by simp)
    omega
  · rwa [List.mem_singleton.1 hd]

/-- A destruction that is bound to the last place of all is bound to the largest. -/
theorem max?_bound {t : Traces} {places : List Nat} {n : Nat} (hn : ∀ i ∈ t.meetings, i ≤ n)
    (h : ∃ d ∈ places, t.bound? d = some n) : (places.filterMap t.bound?).max? = some n := by
  refine List.max?_eq_some_iff.2 ⟨List.mem_filterMap.2 h, fun i hi => ?_⟩
  obtain ⟨d, -, hd⟩ := List.mem_filterMap.1 hi
  exact hn i (bound?_mem hd).1

theorem destroyed_met (h : t.Within n) : (t.met n).marks.destroyed = (t.marks.meet n).destroyed := by
  have hdestructions : (t.met n).destructions = t.destructions := rfl
  have hcrossings : (t.met n).crossings = t.crossings := rfl
  rcases List.eq_nil_or_concat' t.destructions with hnil | ⟨early, last, hlast⟩
  · simp [marks, Marks.meet, hdestructions, hcrossings, hnil]
  · have hn := h.destructions last (by simp [hlast])
    -- If the last destruction waits then it is bound to the new message, which stands last;
    -- otherwise all are bound already.
    cases hbound : t.bound? last with
    | none =>
      have hmet := bound?_met (t := t) hn
      rw [hbound, Option.none_or] at hmet
      have hmax : (t.destructions.filterMap (t.met n).bound?).max? = some n :=
        max?_bound (fun i hi => ?_) ⟨last, by simp [hlast], hmet⟩
      · simp only [marks, Marks.meet, hdestructions, hcrossings, hmax]
        simp [hlast, hbound]
      · rcases List.mem_append.1 hi with hi | hi
        · exact Nat.le_of_lt (h.meetings i hi)
        · exact Nat.le_of_eq (List.mem_singleton.1 hi)
    | some i =>
      have hall := h.all_bound hlast (by rw [hbound]; rfl)
      have hwaits : t.marks.awaitingDestroy = none := by simp [marks, hlast, hbound]
      have hmeet : (t.marks.meet n).destroyed = t.marks.destroyed := by simp [Marks.meet, hwaits]
      rw [hmeet]
      simp only [marks, hdestructions, hcrossings, filterMap_met h.destructions hall]

/-- Nothing waits after a message of the participant. -/
theorem marks_met (h : t.Within n) : (t.met n).marks = t.marks.meet n := by
  have hcreate : (t.met n).marks.awaitingCreate = none := by
    have hnone : (t.creations.getLast?.filter fun place => ((t.met n).meetingAfter? place).isNone) = none := by
      refine Option.filter_eq_none_iff.2 fun last hlast => ?_
      rw [meetingAfter?_met (h.creations last (List.mem_of_getLast? hlast))]
      simp
    exact congrArg (Option.map Int.ofNat) hnone
  have hdestroy : (t.met n).marks.awaitingDestroy = none := by
    have hnone : (t.destructions.getLast?.filter fun place => ((t.met n).bound? place).isNone) = none := by
      refine Option.filter_eq_none_iff.2 fun last hlast => ?_
      rw [bound?_met (h.destructions last (List.mem_of_getLast? hlast))]
      simp
    exact congrArg (Option.map Int.ofNat) hnone
  have hcreated := created_met h
  have hdestroyed := destroyed_met h
  -- The four marks are those that the meeting leaves.
  generalize (t.met n).marks = k at *
  obtain ⟨created, destroyed, awaitingCreate, awaitingDestroy⟩ := k
  simp only at hcreate hdestroy hcreated hdestroyed
  rw [hcreate, hdestroy, hcreated, hdestroyed]
  rfl

/-- A message that ends in a cross counts if it is the first and nothing is bound. -/
theorem marks_crossed (t : Traces) (n : Nat) :
    ({ t with crossings := t.crossings ++ [n] } : Traces).marks = t.marks.crossOut n := by
  have hdestroyed : ((t.destructions.filterMap t.bound?).max?.or (t.crossings ++ [n]).head?).map Int.ofNat =
      (((t.destructions.filterMap t.bound?).max?.or t.crossings.head?).map Int.ofNat).or (some (n : Int)) := by
    cases (t.destructions.filterMap t.bound?).max? with
    | some i => rfl
    | none => cases t.crossings <;> rfl
  exact congrArg (fun destroyed => { t.marks with destroyed }) hdestroyed

theorem marks_created (h : t.Within n) :
    ({ t with creations := t.creations ++ [n] } : Traces).marks = { t.marks with awaitingCreate := some (n : Int) } := by
  have hnone : t.meetingAfter? n = none := by
    cases hafter : t.meetingAfter? n with
    | none => rfl
    | some i =>
      obtain ⟨hm, hlt⟩ := meetingAfter?_mem hafter
      have := h.meetings i hm
      omega
  have hsame : (({ t with creations := t.creations ++ [n] } : Traces).meetingAfter?) = t.meetingAfter? := rfl
  have hbound : (({ t with creations := t.creations ++ [n] } : Traces).bound?) = t.bound? := rfl
  simp [marks, hsame, hbound, hnone]

/-- A destruction right after a message of the participant is bound to that. -/
theorem marks_destroyed_at {i : Nat} (h : t.Within (i + 1)) (hi : i ∈ t.meetings) :
    ({ t with destructions := t.destructions ++ [i + 1] } : Traces).marks = { t.marks with destroyed := some (i : Int) } := by
  have hsame : (({ t with destructions := t.destructions ++ [i + 1] } : Traces).meetingAfter?) = t.meetingAfter? := rfl
  have hbound : (({ t with destructions := t.destructions ++ [i + 1] } : Traces).bound?) = t.bound? := rfl
  have hlast : t.bound? (i + 1) = some i := by
    unfold bound?
    cases hf : t.meetings.find? fun j => j + 1 == i + 1 with
    | none => exact absurd (beq_self_eq_true (i + 1)) (List.find?_eq_none.1 hf i hi)
    | some j =>
      have hj : j = i := by simpa using List.find?_some hf
      rw [hj]
      rfl
  have hmax : ((t.destructions ++ [i + 1]).filterMap t.bound?).max? = some i :=
    max?_bound (fun j hj => Nat.le_of_lt_succ (h.meetings j hj)) ⟨i + 1, by simp, hlast⟩
  have hwaits : (t.destructions.getLast?.filter fun place => (t.bound? place).isNone) = none := by
    refine Option.filter_eq_none_iff.2 fun last hl => ?_
    have hmem := List.mem_of_getLast? hl
    obtain ⟨j, hj⟩ := Option.isSome_iff_exists.1 (h.bound hi hmem (Nat.le_of_lt (h.destructions last hmem)))
    simp [hj]
  simp only [marks, hsame, hbound, hmax, hwaits]
  simp [hlast]

/-- Any other destruction waits for the next message of the participant. -/
theorem marks_destroyed_later (h : t.Within n) (hn : ∀ i ∈ t.meetings, i + 1 ≠ n) :
    ({ t with destructions := t.destructions ++ [n] } : Traces).marks = { t.marks with awaitingDestroy := some (n : Int) } := by
  have hsame : (({ t with destructions := t.destructions ++ [n] } : Traces).meetingAfter?) = t.meetingAfter? := rfl
  have hbound : (({ t with destructions := t.destructions ++ [n] } : Traces).bound?) = t.bound? := rfl
  have hnone : t.bound? n = none := by
    cases hb : t.bound? n with
    | none => rfl
    | some i =>
      obtain ⟨hm, hle⟩ := bound?_mem hb
      have := h.meetings i hm
      have := hn i hm
      omega
  simp [marks, hsame, hbound, hnone]

/-- The traces in a timeline with one more item. -/
theorem of_concat (id : String) (items : List Statement) (item : Statement) : of id (items ++ [item]) =
    { creations := (of id items).creations ++ if item.createsId id = true then [items.length] else []
      destructions := (of id items).destructions ++ if item.destroysId id = true then [items.length] else []
      meetings := (of id items).meetings ++ if item.meets id = true then [items.length] else []
      crossings := (of id items).crossings ++ if item.crosses id = true then [items.length] else [] } := by
  simp only [of, places_concat]

/-- An item that is nothing to the participant leaves no traces of it. -/
theorem of_other {id : String} {item : Statement} (hc : item.createsId id = false) (hd : item.destroysId id = false)
    (hm : item.meets id = false) (hx : item.crosses id = false) (items : List Statement) :
    of id (items ++ [item]) = of id items := by
  rw [of_concat, hc, hd, hm, hx]
  simp

end Traces

/-! ## The marks of a timeline -/

theorem Marks.meet_meet (k : Marks) (order : Int) : (k.meet order).meet order = k.meet order := by
  simp [meet]

/-- A message meets what waits for a participant once, though it may be from and to it. -/
theorem Marks.message_eq (id : String) (m : Message) (k : Marks) : k.message id m =
    if m.arrow.isCross = true ∧ m.target.id = id then
      (if m.involves id = true then k.meet m.order else k).crossOut m.order
    else if m.involves id = true then k.meet m.order else k := by
  have hinvolves : m.involves id = (decide (m.source.id = id) || decide (m.target.id = id)) := by
    simp [Message.involves, Bool.beq_eq_decide_eq, eq_comm]
  have hmeet : (if m.target.id = id then (if m.source.id = id then k.meet m.order else k).meet m.order
      else if m.source.id = id then k.meet m.order else k) = if m.involves id = true then k.meet m.order else k := by
    by_cases hs : m.source.id = id <;> by_cases ht : m.target.id = id <;> simp [hinvolves, hs, ht, meet_meet]
  simp only [message, hmeet]

namespace Traces

theorem marks_message (id : String) {m : Message} {items : List Statement} (hm : m.order = items.length) :
    (of id (items ++ [.message m])).marks = (of id items).marks.message id m := by
  obtain ⟨t, hmarks, hof⟩ : ∃ t : Traces,
      t.marks = (if m.involves id = true then (of id items).marks.meet m.order else (of id items).marks) ∧
      of id (items ++ [.message m]) = { t with
        crossings := t.crossings ++ if m.arrow.isCross = true ∧ m.target.id = id then [items.length] else [] } := by
    -- The message meets what waits before it can cross the participant out.
    refine ⟨if m.involves id = true then (of id items).met items.length else of id items, ?_, ?_⟩
    · split
      · rw [marks_met (within_of id items), hm]
      · rfl
    · rw [of_concat]
      by_cases hi : m.involves id = true <;>
        simp [Statement.createsId, Statement.destroysId, Statement.meets, Statement.crosses, met, hi]
  rw [hof, Marks.message_eq, ← hmarks]
  split
  · rw [marks_crossed, hm]
  · simp

/-- The last item is the one that a meeting right before the end stands at. -/
theorem head?_of_meeting {id : String} {older : List Statement} {i : Nat} (hi : i ∈ (of id older.reverse).meetings)
    (hlast : i + 1 = older.length) : ∃ m, older.head? = some (.message m) ∧ m.involves id = true := by
  obtain ⟨item, hitem, hmeets⟩ := mem_places.1 hi
  rw [List.getElem?_reverse (by omega), show older.length - 1 - i = 0 by omega, ← List.head?_eq_getElem?] at hitem
  cases item with
  | message m => exact ⟨m, hitem, hmeets⟩
  | _ => cases hmeets

theorem marks_destroy {id : String} {x : Directive} {older : List Statement} (h : History older)
    (hx : x.order = older.length) (hid : x.id = id) (hk : x.kind = .destroy) :
    (of id (older.reverse ++ [.directive x])).marks =
      (of id older.reverse).marks.destroy id older.head? x.order := by
  have hof : of id (older.reverse ++ [.directive x]) =
      { of id older.reverse with destructions := (of id older.reverse).destructions ++ [older.length] } := by
    rw [of_concat]
    simp [Statement.createsId, Statement.destroysId, Statement.meets, Statement.crosses, hk, hid]
  have hw := within_of id older.reverse
  rw [List.length_reverse] at hw
  rw [hof]
  -- Only the item right before it decides whether the destruction counts there or waits.
  by_cases hlast : ∃ m, older.head? = some (.message m) ∧ m.involves id = true
  · obtain ⟨m, hhead, hm⟩ := hlast
    obtain ⟨rest, rfl⟩ := List.head?_eq_some_iff.1 hhead
    have hmeets : rest.length ∈ (of id (.message m :: rest).reverse).meetings :=
      mem_places.2 ⟨.message m, by simp, hm⟩
    have horder : m.order = rest.length := h.1
    rw [List.length_cons] at hw ⊢
    rw [marks_destroyed_at hw hmeets]
    simp only [Marks.destroy, List.head?_cons, hm, if_true, horder]
  · rw [marks_destroyed_later hw fun i hi he => hlast (head?_of_meeting hi he), hx]
    unfold Marks.destroy
    split
    · rename_i m hhead
      rw [if_neg fun hm => hlast ⟨m, hhead, hm⟩]
    · rfl

theorem marks_directive (id : String) {x : Directive} {older : List Statement} (h : History (.directive x :: older))
    (ih : Marks.ofPast id older = (of id older.reverse).marks) :
    Marks.ofPast id (.directive x :: older) = (of id (older.reverse ++ [.directive x])).marks := by
  have hx : x.order = older.length := h.1
  unfold Marks.ofPast
  split
  · rename_i hid
    cases hk : x.kind with
    | create =>
      have hw := within_of id older.reverse
      have hof : of id (older.reverse ++ [.directive x]) =
          { of id older.reverse with creations := (of id older.reverse).creations ++ [older.reverse.length] } := by
        rw [of_concat]
        simp [Statement.createsId, Statement.destroysId, Statement.meets, Statement.crosses, hk, hid]
      rw [hof, marks_created hw, List.length_reverse, ← ih, ← hx]
    | destroy => rw [marks_destroy h.2 hx hid hk, ih]
    | _ =>
      rw [of_other _ _ rfl rfl]
      · exact ih
      all_goals simp [Statement.createsId, Statement.destroysId, hk]
  · rename_i hid
    rw [of_other _ _ rfl rfl]
    · exact ih
    all_goals simp [Statement.createsId, Statement.destroysId, hid]

end Traces

/-- The marks of a participant are those that its traces in the timeline tell. -/
theorem Marks.ofPast_eq (id : String) {past : List Statement} (h : History past) :
    Marks.ofPast id past = (Traces.of id past.reverse).marks := by
  -- On the timeline, latest first: `reverse_cons` puts each item behind the older ones.
  induction past with
  | nil => rfl
  | cons item older ih =>
    have ih := ih h.2
    rw [List.reverse_cons]
    cases item with
    | message m =>
      have hm : m.order = older.reverse.length := by
        rw [List.length_reverse]
        exact h.1
      rw [Traces.marks_message id hm, ← ih]
      rfl
    | directive x => exact Traces.marks_directive id h ih
    | _ =>
      rw [Traces.of_other rfl rfl rfl rfl]
      exact ih

/-! ## Finished diagrams -/

namespace Traces

/-- If no place leads to a message then the last one waits. -/
theorem getLast?_waiting {places : List Nat} {f : Nat → Option Nat} (h : places.filterMap f = []) :
    (places.getLast?.filter fun place => (f place).isNone) = places.getLast? := by
  cases hlast : places.getLast? with
  | none => rfl
  | some place =>
    have hnone := List.filterMap_eq_nil_iff.1 h place (List.mem_of_getLast? hlast)
    simp [hnone]

/-- What still waits when a timeline ends takes its own place. -/
theorem marks_created? (t : Traces) : t.marks.created.or t.marks.awaitingCreate = t.created?.map Int.ofNat := by
  unfold created? marks
  dsimp only
  cases hlast : (t.creations.filterMap t.meetingAfter?).getLast? with
  | some i => rfl
  | none =>
    rw [getLast?_waiting (List.getLast?_eq_none_iff.1 hlast)]
    rfl

theorem marks_destroyed? (t : Traces) : t.marks.destroyed.or t.marks.awaitingDestroy = t.destroyed?.map Int.ofNat := by
  unfold destroyed? marks
  dsimp only
  cases hmax : (t.destructions.filterMap t.bound?).max? with
  | some i => rfl
  | none =>
    rw [getLast?_waiting (List.max?_eq_none_iff.1 hmax)]
    cases t.crossings.head? <;> rfl

end Traces

namespace Draft

/-- The blocks that a timeline is shown with are nothing to its traces. -/
theorem traces_timeline (d : Draft) (id : String) : Traces.of id d.build.timeline = Traces.of id d.past.reverse := by
  have hfill (p : Statement → Bool) (hp : ∀ blocks item, p (Statement.fillIn blocks item) = p item) :
      places p d.build.timeline = places p d.past.reverse := places_map (hp _) d.past.reverse
  unfold Traces.of
  rw [hfill (Statement.createsId id) fun blocks item => by cases item <;> rfl,
    hfill (Statement.destroysId id) fun blocks item => by cases item <;> rfl,
    hfill (Statement.meets id) fun blocks item => by cases item <;> rfl,
    hfill (Statement.crosses id) fun blocks item => by cases item <;> rfl]

theorem build_orders_eq {d : Draft} (ha : d.Aligned) :
    d.build.timeline.map Statement.order = (List.range d.build.timeline.length).map Int.ofNat := by
  have hfill : ∀ blocks, (d.past.reverse.map (Statement.fillIn blocks)).map Statement.order =
      d.past.reverse.map Statement.order := fun blocks => by
    rw [List.map_map]
    exact List.map_congr_left fun item _ => by cases item <;> rfl
  have hlength : d.build.timeline.length = d.past.length := by simp [build, timeline]
  rw [hlength, ← ha.history.orders]
  exact hfill _

theorem nodup_ids_run (ops : List Operation) : (run {} ops).roster.ids.Nodup := by
  obtain ⟨es, hs⟩ := steps_run {} ops
  rw [hs.ids]
  exact Roster.nodup_foldl_addName List.nodup_nil

/-- In every diagram that operations build, the items of the timeline carry their places as
orders, and every participant is created and destroyed where its traces in the timeline
say. -/
theorem lifespans (ops : List Operation) :
    (run {} ops).build.timeline.map Statement.order =
        (List.range (run {} ops).build.timeline.length).map Int.ofNat ∧
      ∀ p ∈ (run {} ops).build.participants,
        p.createdAt = (Traces.of p.id (run {} ops).build.timeline).created?.map Int.ofNat ∧
          p.destroyedAt = (Traces.of p.id (run {} ops).build.timeline).destroyed?.map Int.ofNat := by
  have ha := aligned_run ops
  obtain ⟨es, hs⟩ := steps_run {} ops
  refine ⟨build_orders_eq ha, fun p hp => ?_⟩
  rw [Diagram.build_participants (nodup_ids_run ops) (marked_of_steps hs)] at hp
  obtain ⟨id, -, rfl⟩ := List.mem_map.1 hp
  have hmarks := Marks.ofPast_eq id ha.history
  simp only [Diagram.participantOf, traces_timeline, hmarks]
  exact ⟨Traces.marks_created? _, Traces.marks_destroyed? _⟩

/-- A destruction counts at the next message, and a creation that no message follows where it is. -/
example : ((run {} [.destroy "A", .addMessage { source := ⟨"B", false, false⟩, target := ⟨"A", false, false⟩ },
    .create "A" .participant none]).build.participants.map fun p => (p.id, p.createdAt, p.destroyedAt)) =
    [("A", some 2, some 1), ("B", none, none)] := by
  decide

end Draft

end Lifeline
