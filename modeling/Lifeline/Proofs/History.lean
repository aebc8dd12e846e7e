import Lifeline.Proofs.Steps
/-!
# The shape of a timeline

Every item of a timeline carries its place as its order, and a further branch and an end
belong to the innermost open block. `History` says so about a timeline, latest item first.
What a message activates, and how a block is labelled, makes no difference to the shape.
-/

namespace Lifeline

/-- The order that an item of a timeline carries. -/
def Statement.order : Statement → Int
  | .message m => m.order
  | .note n => n.order
  | .blockStart s => s.order
  | .blockBranch b => b.order
  | .blockEnd e => e.order
  | .directive x => x.order
  | _ => -1

/-- An open block: its kind, its start and how many branches it has so far. -/
structure OpenBlock where
  kind : BlockKind
  start : Int
  branches : Nat
  deriving DecidableEq, Repr

namespace Draft

/-- Whether an item opens a branch of the block that starts at the given order. -/
def opensBranchOf (start : Int) : Statement → Bool
  | .blockStart s => s.order == start
  | .blockBranch b => b.blockOrder == start
  | _ => false

/-- An item that opens a branch, with a text added to the branch's label. -/
def growItem (text : String) : Statement → Statement
  | .blockStart s => .blockStart { s with block := { s.block with label := growLabel text s.block.label } }
  | .blockBranch b => .blockBranch { b with label := growLabel text b.label }
  | item => item

/-- Changes the first item that satisfies `p`. -/
def changeFirst (p : Statement → Bool) (change : Statement → Statement) :
    List Statement → List Statement
  | [] => []
  | item :: items => if p item then change item :: items else item :: changeFirst p change items

/-- A view of items that the change of one item is not seen in. -/
theorem map_changeAt {α : Type} {view : Statement → α} {change : Statement → Statement}
    (hv : ∀ item, view (change item) = view item) (place : Nat) (past : List Statement) :
    (changeAt place change past).map view = past.map view := by
  induction past with
  | nil => rfl
  | cons item older ih =>
    unfold changeAt
    split <;> simp [hv, ih]

end Draft

/-- The label that an item gives to the branch that it opens. -/
def Statement.branchLabel? : Statement → Option String
  | .blockStart s => s.block.label
  | .blockBranch b => b.label
  | _ => none

namespace History

/-- The blocks that are open after a timeline, given latest first: innermost first. -/
def openAfter : List Statement → List OpenBlock
  | [] => []
  | .blockStart s :: older => ⟨s.block.kind, s.order, 1⟩ :: openAfter older
  | .blockBranch _ :: older =>
    match openAfter older with
    | [] => []
    | b :: outer => { b with branches := b.branches + 1 } :: outer
  | .blockEnd _ :: older => (openAfter older).tail
  | _ :: older => openAfter older

end History

open History

/-- What an item must be to follow a timeline. -/
def Statement.Follows (past : List Statement) : Statement → Prop
  | .message m => m.order = past.length
  | .note n => n.order = past.length
  | .directive x => x.order = past.length
  | .blockStart s =>
    s.order = past.length ∧ s.block.branches = [] ∧ s.block.startOrder = -1 ∧ s.block.endOrder = none
  | .blockBranch b =>
    b.order = past.length ∧ ∃ o outer, openAfter past = o :: outer ∧
      o.kind.branchKeyword? = some b.keyword ∧ b.blockOrder = o.start ∧ b.branchIndex = o.branches
  | .blockEnd e =>
    e.order = past.length ∧ ∃ o outer, openAfter past = o :: outer ∧ e.blockOrder = o.start
  | _ => False

/-- A timeline, latest first, in which every item follows the ones before it. -/
def History : List Statement → Prop
  | [] => True
  | item :: older => item.Follows older ∧ History older

namespace History

theorem order_eq {item : Statement} {past : List Statement} (h : item.Follows past) :
    item.order = past.length := by
  cases item with
  | message m => exact h
  | note n => exact h
  | directive x => exact h
  | blockStart s => exact h.1
  | blockBranch b => exact h.1
  | blockEnd e => exact h.1
  | _ => exact h.elim

/-- The orders of a timeline are its places. -/
theorem orders {past : List Statement} (h : History past) :
    past.reverse.map Statement.order = (List.range past.length).map Int.ofNat := by
  induction past with
  | nil => rfl
  | cons item older ih => simp [List.range_succ, ih h.2, order_eq h.1]

theorem nodup_orders {past : List Statement} (h : History past) : (past.reverse.map Statement.order).Nodup := by
  rw [h.orders]
  exact List.pairwise_map.2 (List.nodup_range.imp fun hne he => hne (Int.ofNat.inj he))

theorem order_bounds {past : List Statement} (h : History past) {item : Statement} (hi : item ∈ past) :
    0 ≤ item.order ∧ item.order < past.length := by
  have hmem : item.order ∈ past.reverse.map Statement.order := List.mem_map_of_mem (List.mem_reverse.2 hi)
  rw [h.orders, List.mem_map] at hmem
  obtain ⟨i, hi, he⟩ := hmem
  rw [← he]
  exact ⟨Int.natCast_nonneg i, Int.ofNat_lt.2 (List.mem_range.1 hi)⟩

/-! ## Open blocks -/

/-- An open block starts inside the timeline, after the blocks around it. -/
theorem start_lt {past : List Statement} (h : History past) :
    ((openAfter past).map OpenBlock.start).Pairwise (· > ·) ∧
      ∀ o ∈ openAfter past, o.start < past.length := by
  induction past with
  | nil => simp [openAfter]
  | cons item older ih =>
    obtain ⟨hp, hlt⟩ := ih h.2
    have hlt' : ∀ o ∈ openAfter older, o.start < (older.length : Int) + 1 := fun o ho => by
      have := hlt o ho
      omega
    cases item with
    | blockStart s =>
      have hs : s.order = older.length := h.1.1
      refine ⟨?_, ?_⟩
      · simp only [openAfter, List.map_cons, List.pairwise_cons]
        refine ⟨fun x hx => ?_, hp⟩
        obtain ⟨o, ho, rfl⟩ := List.mem_map.1 hx
        have := hlt o ho
        omega
      · simp only [openAfter, List.mem_cons, List.length_cons, Int.natCast_add, Int.cast_ofNat_Int]
        rintro o (rfl | ho)
        · simp only; omega
        · exact hlt' o ho
    | blockBranch b =>
      obtain ⟨-, o, outer, ho, -⟩ := h.1
      simp only [openAfter, ho, List.length_cons, Int.natCast_add, Int.cast_ofNat_Int] at hp hlt' ⊢
      refine ⟨hp, ?_⟩
      simp only [List.mem_cons] at hlt' ⊢
      rintro o' (rfl | ho')
      · exact hlt' o (.inl rfl)
      · exact hlt' o' (.inr ho')
    | blockEnd e =>
      simp only [openAfter, List.length_cons, Int.natCast_add, Int.cast_ofNat_Int]
      refine ⟨hp.sublist ((List.tail_sublist _).map _), fun o ho => ?_⟩
      exact hlt' o (List.mem_of_mem_tail ho)
    | _ => exact ⟨hp, fun o ho => by simpa using hlt' o ho⟩

/-- What opens a branch belongs to a block that has started. -/
theorem opens_lt {past : List Statement} (h : History past) {item : Statement} (hi : item ∈ past) {start : Int}
    (ho : Draft.opensBranchOf start item = true) : start < past.length := by
  induction past with
  | nil => cases hi
  | cons x older ih =>
    simp only [List.length_cons, Int.natCast_add, Int.cast_ofNat_Int]
    rcases List.mem_cons.1 hi with rfl | hi
    · cases item with
      | blockStart s =>
        have hs : s.order = older.length := h.1.1
        simp only [Draft.opensBranchOf, beq_iff_eq] at ho
        omega
      | blockBranch b =>
        obtain ⟨-, o, outer, hopen, -, hb, -⟩ := h.1
        have := (start_lt h.2).2 o (by simp [hopen])
        simp only [Draft.opensBranchOf, beq_iff_eq] at ho
        omega
      | _ => simp [Draft.opensBranchOf] at ho
    · have := ih h.2 hi
      omega

/-- An open block has the kind of its start. -/
theorem kind_of_start {past : List Statement} (h : History past) {s : BlockStart} (hs : .blockStart s ∈ past)
    {o : OpenBlock} (ho : o ∈ openAfter past) (he : s.order = o.start) : s.block.kind = o.kind := by
  induction past generalizing o with
  | nil => cases hs
  | cons item older ih =>
    have hold : .blockStart s ∈ older → s.order < older.length := fun hm =>
      opens_lt h.2 hm (by simp [Draft.opensBranchOf])
    have hlt := (start_lt h.2).2
    cases item with
    | blockStart t =>
      have ht : t.order = older.length := h.1.1
      rcases List.mem_cons.1 hs with hs | hs
      · obtain rfl := Statement.blockStart.inj hs
        rcases List.mem_cons.1 ho with rfl | ho
        · rfl
        · have := hlt o ho
          omega
      · have := hold hs
        rcases List.mem_cons.1 ho with rfl | ho
        · simp only at he
          omega
        · exact ih h.2 hs ho he
    | blockBranch b =>
      obtain ⟨-, i, outer, hopen, -⟩ := h.1
      have hs : .blockStart s ∈ older := by simpa using hs
      simp only [openAfter, hopen, List.mem_cons] at ho
      rcases ho with rfl | ho
      · exact ih (o := i) h.2 hs (by simp [hopen]) he
      · exact ih h.2 hs (by simp [hopen, ho]) he
    | blockEnd e => exact ih h.2 (by simpa using hs) (List.mem_of_mem_tail ho) he
    | _ => exact ih h.2 (by simpa using hs) ho he

/-- The first item that satisfies `p` is the one at the place that it carries as its order. -/
theorem changeFirst_eq_changeAt {past : List Statement} (h : History past) {p : Statement → Bool} {item : Statement}
    (hi : past.find? p = some item) {change change' : Statement → Statement} (hc : change item = change' item) :
    Draft.changeFirst p change past = Draft.changeAt item.order.toNat change' past := by
  induction past with
  | nil => cases hi
  | cons x older ih =>
    have hx : x.order = older.length := order_eq h.1
    unfold Draft.changeFirst Draft.changeAt
    cases hp : p x with
    | true =>
      rw [List.find?_cons_of_pos hp] at hi
      obtain rfl := Option.some.inj hi
      simp [hx, hc]
    | false =>
      rw [List.find?_cons_of_neg (by simp [hp])] at hi
      have hlt := order_bounds h.2 (List.mem_of_find?_eq_some hi)
      have hne : older.length ≠ item.order.toNat := by omega
      simp [hne, ih h.2 hi]

/-! ## Changes that leave the shape alone -/

/-- An item without its activations, its label and its colour. -/
def outline : Statement → Statement
  | .message m => .message { m with source := { id := m.source.id }, target := { id := m.target.id } }
  | .blockStart s => .blockStart { s with block := { s.block with label := none, color := none } }
  | .blockBranch b => .blockBranch { b with label := none }
  | item => item

theorem openAfter_outline (past : List Statement) : openAfter (past.map outline) = openAfter past := by
  induction past with
  | nil => rfl
  | cons item older ih => cases item <;> simp [openAfter, outline, ih]

theorem follows_outline (past : List Statement) (item : Statement) :
    (outline item).Follows (past.map outline) ↔ item.Follows past := by
  cases item <;> simp [Statement.Follows, outline, openAfter_outline]

theorem outline_iff (past : List Statement) : History (past.map outline) ↔ History past := by
  induction past with
  | nil => rfl
  | cons item older ih =>
    simp only [List.map_cons, History]
    rw [follows_outline, ih]

/-- Two timelines with the same outline have the same shape. -/
theorem of_outline {past past' : List Statement} (h : past'.map outline = past.map outline) :
    (History past' ↔ History past) ∧ openAfter past' = openAfter past := by
  rw [← outline_iff past', ← outline_iff past, ← openAfter_outline past', ← openAfter_outline past, h]
  exact ⟨.rfl, rfl⟩

theorem outline_fold {m m' : Message} {id : String} {activate : Bool} (h : Draft.fold? m id activate = some m') :
    outline (.message m') = outline (.message m) := by
  unfold Draft.fold? Draft.mark at h
  split at h
  · simp only [Option.some.injEq] at h; subst h; split <;> rfl
  · split at h
    · simp only [Option.some.injEq] at h; subst h; split <;> rfl
    · cases h

theorem outline_relabelItem (label : Option String) (item : Statement) :
    outline (Draft.relabelItem label item) = outline item := by
  cases item <;> rfl

theorem outline_growItem (text : String) (item : Statement) :
    outline (Draft.growItem text item) = outline item := by
  cases item <;> rfl

theorem outline_changeFirst {change : Statement → Statement} (h : ∀ x, outline (change x) = outline x)
    (p : Statement → Bool) (past : List Statement) :
    (Draft.changeFirst p change past).map outline = past.map outline := by
  induction past with
  | nil => rfl
  | cons item older ih =>
    unfold Draft.changeFirst
    split
    · simp [h]
    · simp [ih]

end History

end Lifeline
