import Lifeline.Proofs.Alignment
import Lifeline.Proofs.Named
import Lifeline.Proofs.Nesting
/-!
# Brackets

The starts and the ends of blocks in a timeline are brackets, and which block stands in which
is told by matching them last in, first out, whether or not they match up
(`Bracket.nesting`). A tree of closed blocks is nested as the brackets of its timeline are
(`Node.nesting_expandAll`), and what is left of brackets when those without a partner are
dropped or closed is nested as before (`Bracket.nesting_balanced`).
-/

namespace Lifeline

open History

/-- The start of a block of a kind, or the end of a block. -/
inductive Bracket where
  | opening (kind : BlockKind)
  | closing
  deriving DecidableEq, Repr

/-- The bracket that an item of a timeline is, if it is one. -/
def Statement.bracket? : Statement → Option Bracket
  | .blockStart s => some (.opening s.block.kind)
  | .blockEnd _ => some .closing
  | _ => none

/-- The brackets among items. -/
def bracketsOf (items : List Statement) : List Bracket := items.filterMap Statement.bracket?

/-- The kind of the block that a bracket opens. -/
def Bracket.kind? : Bracket → Option BlockKind
  | .opening kind => some kind
  | .closing => none

namespace Bracket

/-- The blocks that brackets open, in order: the kind of each, and the number of the block that
it stands in. An end closes the innermost open block, if there is one. The open blocks are
given by their numbers, innermost first, and `next` is the number of the next block. -/
def nesting : List Nat → Nat → List Bracket → List (BlockKind × Option Nat)
  | _, _, [] => []
  | opens, next, .opening kind :: bs => (kind, opens.head?) :: nesting (next :: opens) (next + 1) bs
  | opens, next, .closing :: bs => nesting opens.tail next bs

/-- The brackets inside open blocks that match up: an end without a block is left out, and what
is still open at the end is closed there. -/
def balanced : Nat → List Bracket → List Bracket
  | depth, [] => List.replicate depth .closing
  | depth, .opening kind :: bs => .opening kind :: balanced (depth + 1) bs
  | 0, .closing :: bs => balanced 0 bs
  | depth + 1, .closing :: bs => .closing :: balanced depth bs

theorem nesting_closings (opens : List Nat) (next n : Nat) : nesting opens next (List.replicate n .closing) = [] := by
  induction n generalizing opens with
  | zero => rfl
  | succ n ih => exact ih opens.tail

/-- Blocks stay where they are if the brackets are made to match up. -/
theorem nesting_balanced (opens : List Nat) (next : Nat) (bs : List Bracket) :
    nesting opens next (balanced opens.length bs) = nesting opens next bs := by
  induction bs generalizing opens next with
  | nil => exact nesting_closings opens next opens.length
  | cons b bs ih =>
    cases b with
    | opening kind => exact congrArg ((kind, opens.head?) :: ·) (ih (next :: opens) (next + 1))
    | closing =>
      cases opens with
      | nil => exact ih [] next
      | cons o opens => exact ih opens next

/-- The kinds of the blocks are those of the openings. -/
theorem nesting_kinds (opens : List Nat) (next : Nat) (bs : List Bracket) :
    (nesting opens next bs).map Prod.fst = bs.filterMap kind? := by
  induction bs generalizing opens next with
  | nil => rfl
  | cons b bs ih => cases b <;> simp [nesting, kind?, List.filterMap_cons, ih]

end Bracket

/-! ## Trees -/

mutual

/-- The blocks of a node in order, the first of which has the given number: the kind of each,
and the number of the block that it stands in. -/
def Node.nesting (around : Option Nat) (number : Nat) : Node → List (BlockKind × Option Nat)
  | .block b => (b.kind, around) :: b.nesting number
  | _ => []
termination_by structural n => n

/-- The blocks inside a block of the given number. -/
def Block.nesting (number : Nat) : Block → List (BlockKind × Option Nat)
  | ⟨_, _, _, branches, _, _⟩ => Branch.allNesting (some number) (number + 1) branches
termination_by structural b => b

/-- The blocks in a branch. -/
def Branch.nesting (around : Option Nat) (number : Nat) : Branch → List (BlockKind × Option Nat)
  | ⟨_, _, statements⟩ => Node.allNesting around number statements
termination_by structural b => b

/-- The blocks in several branches. -/
def Branch.allNesting (around : Option Nat) (number : Nat) : List Branch → List (BlockKind × Option Nat)
  | [] => []
  | b :: bs => b.nesting around number ++ Branch.allNesting around (number + b.blocks.length) bs
termination_by structural bs => bs

/-- The blocks of several nodes. -/
def Node.allNesting (around : Option Nat) (number : Nat) : List Node → List (BlockKind × Option Nat)
  | [] => []
  | n :: ns => n.nesting around number ++ Node.allNesting around (number + n.blocks.length) ns
termination_by structural ns => ns

end

mutual

theorem Node.nesting_kinds (around : Option Nat) (number : Nat) : (n : Node) →
    (n.nesting around number).map Prod.fst = n.blocks.map Block.kind
  | .message _ | .note _ | .directive _ => rfl
  | .block b => by simp [Node.nesting, Node.blocks, Block.nesting_kinds number b]

theorem Block.nesting_kinds (number : Nat) : (b : Block) → (b.nesting number).map Prod.fst = b.inner.map Block.kind
  | ⟨_, _, _, branches, _, _⟩ => Branch.allNesting_kinds (some number) (number + 1) branches

theorem Branch.nesting_kinds (around : Option Nat) (number : Nat) : (b : Branch) →
    (b.nesting around number).map Prod.fst = b.blocks.map Block.kind
  | ⟨_, _, statements⟩ => Node.allNesting_kinds around number statements

theorem Branch.allNesting_kinds (around : Option Nat) (number : Nat) : (bs : List Branch) →
    (Branch.allNesting around number bs).map Prod.fst = (Branch.allBlocks bs).map Block.kind
  | [] => rfl
  | b :: bs => by
    simp [Branch.allNesting, Branch.allBlocks, Branch.nesting_kinds around number b,
      Branch.allNesting_kinds around (number + b.blocks.length) bs]

/-- The blocks of a tree and where they stand are listed in the order of the blocks. -/
theorem Node.allNesting_kinds (around : Option Nat) (number : Nat) : (ns : List Node) →
    (Node.allNesting around number ns).map Prod.fst = (Node.allBlocks ns).map Block.kind
  | [] => rfl
  | n :: ns => by
    simp [Node.allNesting, Node.allBlocks, Node.nesting_kinds around number n,
      Node.allNesting_kinds around (number + n.blocks.length) ns]

end

mutual

theorem Node.nesting_expand (opens : List Nat) (next : Nat) (rest : List Bracket) : (n : Node) →
    (∀ c ∈ n.blocks, c.endOrder.isSome = true) → Bracket.nesting opens next (bracketsOf n.expand ++ rest) =
      n.nesting opens.head? next ++ Bracket.nesting opens (next + n.blocks.length) rest
  | .message _, _ | .note _, _ | .directive _, _ => rfl
  | .block b, h => by
    simp only [Node.blocks, List.mem_cons, forall_eq_or_imp] at h
    have hbody := Block.nesting_body opens next rest b h.1 h.2
    simp only [Node.expand, Node.nesting, Node.blocks, bracketsOf, List.filterMap_cons, Statement.bracket?, List.length_cons,
      List.cons_append, Bracket.nesting, List.cons.injEq, true_and] at hbody ⊢
    rw [hbody, Nat.add_comm b.inner.length, Nat.add_assoc]

theorem Block.nesting_body (opens : List Nat) (number : Nat) (rest : List Bracket) : (b : Block) →
    b.endOrder.isSome = true → (∀ c ∈ b.inner, c.endOrder.isSome = true) →
    Bracket.nesting (number :: opens) (number + 1) (bracketsOf b.body ++ rest) =
      b.nesting number ++ Bracket.nesting opens (number + 1 + b.inner.length) rest
  | ⟨kind, _, _, branches, start, stop⟩, hend, h => by
    obtain ⟨stop, rfl⟩ := Option.isSome_iff_exists.1 hend
    have hclose : bracketsOf [Block.closing start stop] = [.closing] := rfl
    have hfirst := Branch.nesting_expandFirst kind start (number :: opens) (number + 1) (.closing :: rest) branches h
    simp only [Block.body, Option.map_some, Option.toList_some, bracketsOf, List.filterMap_append] at hfirst hclose ⊢
    rw [hclose, List.append_assoc]
    exact hfirst

theorem Branch.nesting_contents (opens : List Nat) (next : Nat) (rest : List Bracket) : (b : Branch) →
    (∀ c ∈ b.blocks, c.endOrder.isSome = true) → Bracket.nesting opens next (bracketsOf b.contents ++ rest) =
      b.nesting opens.head? next ++ Bracket.nesting opens (next + b.blocks.length) rest
  | ⟨_, _, statements⟩, h => Node.nesting_expandAll opens next rest statements h

theorem Branch.nesting_expandFirst (kind : BlockKind) (start : Int) (opens : List Nat) (next : Nat) (rest : List Bracket) :
    (bs : List Branch) → (∀ c ∈ Branch.allBlocks bs, c.endOrder.isSome = true) →
    Bracket.nesting opens next (bracketsOf (Branch.expandFirst kind start bs) ++ rest) =
      Branch.allNesting opens.head? next bs ++ Bracket.nesting opens (next + (Branch.allBlocks bs).length) rest
  | [], _ => rfl
  | b :: bs, h => by
    simp only [Branch.allBlocks, List.mem_append] at h
    have hb := Branch.nesting_contents opens next
      (bracketsOf (Branch.expandFrom kind start 1 bs) ++ rest) b fun c hc => h c (.inl hc)
    have hbs := Branch.nesting_expandFrom kind start 1 opens (next + b.blocks.length) rest bs fun c hc => h c (.inr hc)
    simp only [Branch.expandFirst, Branch.allNesting, Branch.allBlocks, bracketsOf, List.filterMap_append, List.append_assoc,
      List.length_append, Nat.add_assoc] at hb hbs ⊢
    rw [hb, hbs]

theorem Branch.nesting_expandFrom (kind : BlockKind) (start : Int) (index : Nat) (opens : List Nat) (next : Nat)
    (rest : List Bracket) : (bs : List Branch) → (∀ c ∈ Branch.allBlocks bs, c.endOrder.isSome = true) →
    Bracket.nesting opens next (bracketsOf (Branch.expandFrom kind start index bs) ++ rest) =
      Branch.allNesting opens.head? next bs ++ Bracket.nesting opens (next + (Branch.allBlocks bs).length) rest
  | [], _ => rfl
  | b :: bs, h => by
    simp only [Branch.allBlocks, List.mem_append] at h
    have hopen : (Branch.opening kind start index b).bracket? = none := rfl
    have hb := Branch.nesting_contents opens next
      (bracketsOf (Branch.expandFrom kind start (index + 1) bs) ++ rest) b fun c hc => h c (.inl hc)
    have hbs := Branch.nesting_expandFrom kind start (index + 1) opens (next + b.blocks.length) rest bs
      fun c hc => h c (.inr hc)
    simp only [Branch.expandFrom, Branch.allNesting, Branch.allBlocks, bracketsOf, List.filterMap_append, List.append_assoc,
      List.length_append, Nat.add_assoc, List.cons_append, List.filterMap_cons, hopen] at hb hbs ⊢
    rw [hb, hbs]

/-- A tree of closed blocks is nested as the brackets are that it is written out with. -/
theorem Node.nesting_expandAll (opens : List Nat) (next : Nat) (rest : List Bracket) : (ns : List Node) →
    (∀ c ∈ Node.allBlocks ns, c.endOrder.isSome = true) →
    Bracket.nesting opens next (bracketsOf (Node.expandAll ns) ++ rest) =
      Node.allNesting opens.head? next ns ++ Bracket.nesting opens (next + (Node.allBlocks ns).length) rest
  | [], _ => rfl
  | n :: ns, h => by
    simp only [Node.allBlocks, List.mem_append] at h
    have hn := Node.nesting_expand opens next (bracketsOf (Node.expandAll ns) ++ rest) n fun c hc => h c (.inl hc)
    have hns := Node.nesting_expandAll opens (next + n.blocks.length) rest ns fun c hc => h c (.inr hc)
    simp only [Node.expandAll, Node.allNesting, Node.allBlocks, bracketsOf, List.filterMap_append, List.append_assoc,
      List.length_append, Nat.add_assoc] at hn hns ⊢
    rw [hn, hns]

end

/-! ## Drafts -/

/-- Whether an event neither opens nor closes anything. -/
def Event.isQuiet : Event → Bool
  | .openBox _ | .openBlock _ _ _ | .close => false
  | _ => true

/-- Whether a statement neither opens nor closes anything. -/
def Statement.isQuiet : Statement → Bool
  | .blockStart _ | .blockEnd _ | .boxStart _ => false
  | _ => true

theorem Operation.events_quiet {x : Statement} (h : x.isQuiet = true) (d : Draft) :
    ∀ e ∈ statementEvents d x, e.isQuiet = true := by
  cases x with
  | blockStart | blockEnd | boxStart => cases h
  | directive x =>
    simp only [statementEvents]
    cases x.kind with
    | create => cases d.roster.get? x.id <;> simp [Event.isQuiet]
    | _ => simp [Event.isQuiet]
  | declaration p =>
    simp only [statementEvents]
    split <;> simp [Event.isQuiet]
  | links l => simp [statementEvents, Event.isQuiet]
  | _ => simp [statementEvents, Event.isQuiet]

/-- The brackets that an event puts into a timeline when regions are open. -/
def Event.brackets (regions : List Region) : Event → List Bracket
  | .openBlock kind _ _ => [.opening kind]
  | .close => match regions with
    | .block _ :: _ => [.closing]
    | _ => []
  | _ => []

namespace Draft

variable {d d' : Draft}

/-- The brackets of a draft's timeline. -/
def brackets (d : Draft) : List Bracket := bracketsOf d.past.reverse

theorem Step.brackets_eq {e : Event} (h : Step d e d') : d'.brackets = d.brackets ++ e.brackets d.regions := by
  cases h with
  | declare => simp [brackets, Event.brackets]
  | message => simp [brackets, Event.brackets, bracketsOf, Statement.bracket?]
  | fold h hp hm => simp [brackets, Event.brackets, bracketsOf, List.filterMap_cons, Statement.bracket?, hp]
  | @extend text frame =>
    have hv : ∀ label item, (relabelItem label item).bracket? = item.bracket? := fun label item => by
      cases item <;> rfl
    have hmap := congrArg (List.filterMap id) (map_changeAt (hv (d.grownLabel frame.content text))
      (d.currentBranch frame.content).startOrder.toNat d.past)
    simp only [List.filterMap_map, Function.id_comp] at hmap
    simp [brackets, Event.brackets, bracketsOf, List.filterMap_reverse, hmap]
  | closeBox hf hb => simp [brackets, Event.brackets, regions, hf, hb]
  | closeBlock hf hb => simp [brackets, Event.brackets, bracketsOf, Statement.bracket?, regions, hf, hb]
  | _ => simp [brackets, Event.brackets, bracketsOf, Statement.bracket?, directive]

/-- Quiet events leave the open regions and the brackets alone. -/
theorem Steps.quiet {es : List Event} (h : Steps d es d') (hq : ∀ e ∈ es, e.isQuiet = true) :
    d'.regions = d.regions ∧ d'.brackets = d.brackets := by
  refine h.keep (I := fun x => x.regions = d.regions ∧ x.brackets = d.brackets) (P := fun e => e.isQuiet = true) ?_ hq
    ⟨rfl, rfl⟩
  intro x e x' he hs hx
  rw [hs.regions_eq, hs.brackets_eq, hx.1, hx.2]
  cases e with
  | openBox | openBlock | close => cases he
  | _ => exact ⟨rfl, List.append_nil _⟩

/-- The tree of a draft without open blocks is nested as its brackets are. -/
theorem Aligned.nesting_tree (ha : d.Aligned) (hf : d.frames = []) (stop : Option Int) :
    Node.allNesting none 0 (d.tree stop) = Bracket.nesting [] 0 d.brackets := by
  have hg := grown_ofPast ha.history
  have hopen : openAfter d.past = [] := by simpa [hf, Frames.blocks] using ha.frames
  have hpath : (Growth.ofPast d.past).path = [] := by simpa [hopen] using hg.path
  have hw := hg.written
  have htree : d.tree stop = (Growth.ofPast d.past).roots := by simp [ha.tree_eq stop, Growth.nodes, hpath]
  have hbare : Statement.bracket? ∘ Statement.bare = Statement.bracket? := funext fun item => by cases item <;> rfl
  have hbrackets : d.brackets = bracketsOf (Node.expandAll (d.tree stop)) ++ [] := by
    rw [brackets, ← hw, hpath, htree]
    simp only [bracketsOf, List.reverse_nil, List.flatMap_nil, List.append_nil, List.filterMap_map, hbare]
  rw [hbrackets, Node.nesting_expandAll [] 0 [] _ fun c hc => (hg.roots c (htree ▸ hc)).2]
  exact (List.append_nil _).symm

end Draft

end Lifeline
