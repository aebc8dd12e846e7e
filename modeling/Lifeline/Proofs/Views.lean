import Lifeline.Draft.Operation
/-!
# Views of a draft

A view overlooks something of the starts of blocks, of the tree and of the open frames. The
statements that are taken in do not depend on what is overlooked: in two drafts that look alike
they have the same result, and the drafts that they lead to look alike again
(`View.feed_congr`).
-/

namespace Lifeline

/-- A way to look at the items of a timeline, at the tree and at the open frames. No change of
the tree brings out what is overlooked of it. -/
structure View where
  item : Statement → Statement
  tree : List Node → List Node
  frame : Frame Nat → Frame Nat
  item_other : ∀ {x}, (∀ s, x ≠ .blockStart s) → item x = x
  item_start : ∀ s, ∃ s', item (.blockStart s) = .blockStart s'
  item_again : ∀ x, item (item x) = item x
  tree_change : ∀ (change : List Node → List Node) ns, tree (change (tree ns)) = tree (change ns)
  frame_region : ∀ f, (frame f).region = f.region
  frame_content : ∀ f, (frame f).content = f.content
  frame_again : ∀ f, frame (frame f) = frame f

namespace View

variable (v : View)

@[simp] theorem tree_tree (ns : List Node) : v.tree (v.tree ns) = v.tree ns := v.tree_change id ns

/-- A draft as it looks. -/
def draft (d : Draft) : Draft :=
  { d with past := d.past.map v.item, statements := v.tree d.statements, frames := d.frames.map v.frame }

section Fields

variable (d : Draft)

@[simp] theorem roster_draft : (v.draft d).roster = d.roster := rfl

@[simp] theorem past_draft : (v.draft d).past = d.past.map v.item := rfl

@[simp] theorem tree_draft : v.tree (v.draft d).statements = v.tree d.statements := v.tree_tree d.statements

@[simp] theorem boxes_draft : (v.draft d).boxes = d.boxes := rfl

@[simp] theorem autonumber_draft : (v.draft d).autonumber = d.autonumber := rfl

@[simp] theorem frames_draft : (v.draft d).frames = d.frames.map v.frame := rfl

@[simp] theorem awaitingCreate_draft : (v.draft d).awaitingCreate = d.awaitingCreate := rfl

@[simp] theorem awaitingDestroy_draft : (v.draft d).awaitingDestroy = d.awaitingDestroy := rfl

@[simp] theorem nextOrder_draft : (v.draft d).nextOrder = d.nextOrder := List.length_map _

end Fields

/-- What it takes for drafts to look alike. -/
theorem draft_eq_iff {d d' : Draft} : v.draft d = v.draft d' ↔
    d.roster = d'.roster ∧ d.past.map v.item = d'.past.map v.item ∧ v.tree d.statements = v.tree d'.statements ∧
      d.boxes = d'.boxes ∧ d.autonumber = d'.autonumber ∧ d.frames.map v.frame = d'.frames.map v.frame ∧
        d.awaitingCreate = d'.awaitingCreate ∧ d.awaitingDestroy = d'.awaitingDestroy := by
  simp [draft]

/-- An attempt with its draft as it looks. -/
def attempt {α : Type} (a : Attempt α) : Attempt α := { a with draft := v.draft a.draft }

@[simp] theorem draft_draft (d : Draft) : v.draft (v.draft d) = v.draft d := by
  simp [draft, Function.comp_def, v.item_again, v.frame_again]

@[simp] theorem attempt_attempt {α : Type} (a : Attempt α) : v.attempt (v.attempt a) = v.attempt a := by
  simp [attempt]

/-! ## Items and frames -/

@[simp] theorem item_message (m : Message) : v.item (.message m) = .message m := v.item_other nofun

@[simp] theorem item_note (n : Note) : v.item (.note n) = .note n := v.item_other nofun

@[simp] theorem item_directive (x : Directive) : v.item (.directive x) = .directive x := v.item_other nofun

@[simp] theorem item_branch (b : BlockBranch) : v.item (.blockBranch b) = .blockBranch b := v.item_other nofun

@[simp] theorem item_end (e : BlockEnd) : v.item (.blockEnd e) = .blockEnd e := v.item_other nofun

theorem box?_map (fs : Frames Nat) : Frames.box? (fs.map v.frame) = fs.box?.map v.frame := by
  have hbox : (fun f : Frame Nat => f.isBox) ∘ v.frame = fun f => f.isBox := by
    funext f
    simp [Frame.isBox, v.frame_region]
  rw [Frames.box?, List.find?_map, hbox]
  rfl

theorem block?_map (fs : Frames Nat) : Frames.block? (fs.map v.frame) = fs.block?.map v.frame := by
  have hblock : (fun f : Frame Nat => !f.isBox) ∘ v.frame = fun f => !f.isBox := by
    funext f
    simp [Frame.isBox, v.frame_region]
  rw [Frames.block?, List.find?_map, hblock]
  rfl

theorem branch_map (fs : Frames Nat) (keyword : String) :
    Frames.branch (fs.map v.frame) keyword = (fs.branch keyword).map v.frame := by
  unfold Frames.branch
  cases BlockKind.ofBranchKeyword? keyword with
  | none => rfl
  | some wanted =>
    cases fs with
    | nil => rfl
    | cons f outer =>
      simp only [List.map_cons, v.frame_region]
      split <;> rfl

/-! ## Operations -/

theorem settle_draft (d : Draft) (m : Message) : (v.draft d).settle m = v.draft (d.settle m) := by
  unfold Draft.settle Draft.crossOut
  split <;> rfl

theorem andThen {α β : Type} (a : Attempt α) {next : Draft → α → Attempt β}
    (h : ∀ d x, next (v.draft d) x = v.attempt (next d x)) : (v.attempt a).andThen next = v.attempt (a.andThen next) := by
  obtain ⟨d, result⟩ := a
  cases result with
  | ok x => exact h d x
  | error e => rfl

/-- What comes next may bring out what is overlooked of the tree, as long as it is overlooked
again. -/
theorem andThen_seen {α β : Type} (a : Attempt α) {next : Draft → α → Attempt β}
    (h : ∀ d x, v.attempt (next (v.draft d) x) = v.attempt (next d x)) :
    v.attempt ((v.attempt a).andThen next) = v.attempt (a.andThen next) := by
  obtain ⟨d, result⟩ := a
  cases result with
  | ok x => exact h d x
  | error e => exact v.attempt_attempt ⟨d, .error e⟩

variable (d : Draft)

theorem mention (id : String) : (v.draft d).mention id = v.attempt (d.mention id) := by
  simp only [Draft.mention, draft]
  split <;> rfl

theorem mentionAll (ids : List String) : (v.draft d).mentionAll ids = v.attempt (d.mentionAll ids) := by
  induction ids generalizing d with
  | nil => rfl
  | cons id ids ih =>
    simp only [Draft.mentionAll, mention]
    exact v.andThen _ fun d _ => ih d

theorem register (id : String) (kind : ParticipantKind) (label : Option String) :
    (v.draft d).register id kind label = v.attempt (d.register id kind label) := by
  simp only [Draft.register, draft]
  split <;> rfl

theorem joinBox (id : String) : (v.draft d).joinBox id = v.draft (d.joinBox id) := by
  have hbox : (v.draft d).frames.box? = d.frames.box?.map v.frame := v.box?_map d.frames
  unfold Draft.joinBox
  rw [hbox]
  cases d.frames.box? with
  | none => rfl
  | some frame =>
    simp only [Option.map_some, v.frame_content, apply_ite v.draft]
    rfl

theorem declare (id : String) (kind : ParticipantKind) (label : Option String) :
    (v.draft d).declare id kind label = v.attempt (d.declare id kind label) := by
  simp only [Draft.declare, register]
  refine v.andThen _ fun d _ => ?_
  rw [joinBox]
  rfl

theorem addLink (id : String) (l : Link) : (v.draft d).addLink id l = v.attempt (d.addLink id l) := by
  simp only [Draft.addLink, mention]
  exact v.andThen _ fun _ _ => rfl

theorem addLinks (id : String) (ls : List Link) : (v.draft d).addLinks id ls = v.attempt (d.addLinks id ls) := by
  induction ls generalizing d with
  | nil => rfl
  | cons l ls ih =>
    simp only [Draft.addLinks, addLink]
    exact v.andThen _ fun d _ => ih d

/-! ## Operations that change the tree -/

/-- A node hangs in what is seen of the tree as it does in the whole tree. -/
@[simp] theorem tree_hung (n : Node) : v.tree ((v.draft d).hung n) = v.tree (d.hung n) := by
  have hblock : (v.draft d).frames.block? = d.frames.block?.map v.frame := v.block?_map d.frames
  unfold Draft.hung
  rw [hblock]
  cases d.frames.block? with
  | none => exact v.tree_change (· ++ [n]) d.statements
  | some frame =>
    simp only [Option.map_some, v.frame_content]
    exact v.tree_change (Node.changeAll frame.content (Node.onBlock (Block.hang · n))) d.statements

/-- A block is changed in what is seen of the tree as it is in the whole tree. -/
@[simp] theorem tree_changed (start : Int) (change : Block → Block) :
    v.tree ((v.draft d).changed start change) = v.tree (d.changed start change) :=
  v.tree_change (Node.changeAll start (Node.onBlock change)) d.statements

theorem appendNode (x : Statement) (n : Node) : v.draft ((v.draft d).appendNode x n) = v.draft (d.appendNode x n) := by
  simp [draft_eq_iff, Draft.appendNode, Draft.append, v.item_again, v.frame_again]

theorem create (id : String) (kind : ParticipantKind) (label : Option String) :
    v.attempt ((v.draft d).create id kind label) = v.attempt (d.create id kind label) := by
  simp only [Draft.create, register]
  refine v.andThen_seen _ fun d _ => ?_
  simp [attempt, draft_eq_iff, Draft.appendNode, Draft.append, v.item_again, v.frame_again]

theorem destroy (id : String) : v.attempt ((v.draft d).destroy id) = v.attempt (d.destroy id) := by
  simp only [Draft.destroy, mention]
  refine v.andThen_seen _ fun d _ => ?_
  cases hp : d.past with
  | nil => simp [hp, attempt, draft_eq_iff, Draft.appendNode, Draft.append, v.frame_again]
  | cons x older =>
    cases x with
    | message m =>
      by_cases hm : m.involves id = true <;>
        simp [hp, hm, attempt, draft_eq_iff, Draft.appendNode, Draft.append, v.item_again, v.frame_again]
    | blockStart s =>
      obtain ⟨s', hs⟩ := v.item_start s
      have hs' := v.item_again (.blockStart s)
      rw [hs] at hs'
      simp [hp, hs, hs', attempt, draft_eq_iff, Draft.appendNode, Draft.append, v.item_again, v.frame_again]
    | _ => simp [hp, v.item_other, attempt, draft_eq_iff, Draft.appendNode, Draft.append, v.item_again, v.frame_again]

theorem addMessage (m : Message) : v.attempt ((v.draft d).addMessage m) = v.attempt (d.addMessage m) := by
  unfold Draft.addMessage
  split
  · exact v.attempt_attempt ⟨d, _⟩
  · rw [mentionAll]
    refine v.andThen_seen _ fun d _ => ?_
    simp only [nextOrder_draft, attempt, ← settle_draft, appendNode]

theorem addNote (n : Note) : v.attempt ((v.draft d).addNote n) = v.attempt (d.addNote n) := by
  unfold Draft.addNote
  split
  · exact v.attempt_attempt ⟨d, _⟩
  · rw [mentionAll]
    refine v.andThen_seen _ fun d _ => ?_
    simp only [nextOrder_draft, attempt, appendNode]

theorem activation (id : String) (activate : Bool) :
    v.attempt ((v.draft d).activation id activate) = v.attempt (d.activation id activate) := by
  simp only [Draft.activation, mention]
  refine v.andThen_seen _ fun d _ => ?_
  cases hp : d.past with
  | nil => simp [hp, attempt, draft_eq_iff, Draft.appendNode, Draft.append, v.frame_again]
  | cons x older =>
    cases x with
    | message m =>
      cases hm : Draft.fold? m id activate with
      | none => simp [hp, hm, attempt, draft_eq_iff, Draft.appendNode, Draft.append, v.item_again, v.frame_again]
      | some folded =>
        have htree : v.tree (Node.changeAll folded.order (fun _ => .message folded) (v.draft d).statements) =
            v.tree (Node.changeAll folded.order (fun _ => .message folded) d.statements) := v.tree_change _ _
        simpa [hp, hm, attempt, draft_eq_iff, v.item_again, v.frame_again] using htree
    | blockStart s =>
      obtain ⟨s', hs⟩ := v.item_start s
      have hs' := v.item_again (.blockStart s)
      rw [hs] at hs'
      simp [hp, hs, hs', attempt, draft_eq_iff, Draft.appendNode, Draft.append, v.item_again, v.frame_again]
    | _ => simp [hp, v.item_other, attempt, draft_eq_iff, Draft.appendNode, Draft.append, v.item_again, v.frame_again]

theorem openBlock (kind : BlockKind) (label color : Option String) (line : Option Int) :
    v.attempt ((v.draft d).openBlock kind label color line) = v.attempt (d.openBlock kind label color line) := by
  simp [Draft.openBlock, attempt, draft_eq_iff, Draft.appendNode, Draft.append, v.item_again, v.frame_again]

theorem openBox (heading : Color.Heading) (line : Option Int) :
    v.attempt ((v.draft d).openBox heading line) = v.attempt (d.openBox heading line) := by
  simp [Draft.openBox, attempt, draft_eq_iff, v.item_again, v.frame_again]

theorem close : v.attempt (v.draft d).close = v.attempt d.close := by
  unfold Draft.close Frames.pop
  cases hf : d.frames with
  | nil => simp [hf, attempt]
  | cons frame outer =>
    simp only [frames_draft, hf, List.map_cons, v.frame_region]
    cases frame.region <;>
      simp [attempt, draft_eq_iff, Draft.append, v.frame_content, v.item_again, v.frame_again, Function.comp_def]

/-- What a statement comes to in a view depends on the view alone, unless it opens a branch. -/
theorem feed {x : Statement} (hx : ∀ b, x ≠ .blockBranch b) (line : Option Int) :
    v.attempt ((v.draft d).feed x line) = v.attempt (d.feed x line) := by
  cases x with
  | message m => exact v.addMessage d m
  | note n => exact v.addNote d n
  | blockStart s => exact v.openBlock d s.block.kind s.block.label s.block.color line
  | blockBranch b => exact absurd rfl (hx b)
  | blockEnd e => exact v.close d
  | directive x =>
    simp only [Draft.feed, Draft.follow]
    cases x.kind with
    | activate => exact v.activation d x.id true
    | deactivate => exact v.activation d x.id false
    | destroy => exact v.destroy d x.id
    | create =>
      simp only [roster_draft]
      cases d.roster.get? x.id with
      | none => exact v.create d x.id .participant none
      | some p => exact v.create d p.id p.kind p.label
  | declaration p =>
    simp only [Draft.feed]
    split
    · exact v.create d p.id p.kind p.label
    · rw [declare, attempt_attempt]
  | boxStart heading => exact v.openBox d heading line
  | links l => rw [Draft.feed, addLinks, attempt_attempt, Draft.feed]
  | autonumber => simp [Draft.feed, attempt, draft_eq_iff, v.item_again, v.frame_again]

variable {d} {d' : Draft}

/-- A further branch is counted in the tree. -/
theorem openBranch (h : v.draft d = v.draft d') {keyword : String}
    (hb : ∀ frame, d.frames.branch keyword = .ok frame → d.branchCount frame.content = d'.branchCount frame.content)
    (label : Option String) : v.attempt (d.openBranch keyword label) = v.attempt (d'.openBranch keyword label) := by
  have horder : d.nextOrder = d'.nextOrder := by rw [← v.nextOrder_draft, h, v.nextOrder_draft]
  obtain ⟨hroster, hpast, htree, hboxes, hnumber, hframes, hcreate, hdestroy⟩ := v.draft_eq_iff.1 h
  have hbranch : (d.frames.branch keyword).map v.frame = (d'.frames.branch keyword).map v.frame := by
    rw [← v.branch_map, hframes, v.branch_map]
  unfold Draft.openBranch
  cases hf : d.frames.branch keyword with
  | error e =>
    cases hf' : d'.frames.branch keyword with
    | error e' =>
      obtain rfl : e = e' := by simpa [hf, hf', Except.map] using hbranch
      simp only [attempt, h]
    | ok f' => simp [hf, hf', Except.map] at hbranch
  | ok f =>
    cases hf' : d'.frames.branch keyword with
    | error e' => simp [hf, hf', Except.map] at hbranch
    | ok f' =>
      have hcontent : f.content = f'.content := by
        have hframe : v.frame f = v.frame f' := by simpa [hf, hf', Except.map] using hbranch
        rw [← v.frame_content, hframe, v.frame_content]
      have hcount : d.branchCount f'.content = d'.branchCount f'.content := hcontent ▸ hb f hf
      have hchanged : v.tree (d.changed f'.content (Block.addBranch · label d.nextOrder)) =
          v.tree (d'.changed f'.content (Block.addBranch · label d.nextOrder)) := by
        rw [← v.tree_changed, ← v.tree_changed d', h]
      rw [horder] at hchanged
      simp [attempt, draft_eq_iff, Draft.append, *]

/-- What a statement comes to in a view depends on the view alone, and for a branch on how many
there are before it. -/
theorem feed_congr (h : v.draft d = v.draft d') (hb : ∀ keyword frame, d.frames.branch keyword = .ok frame →
    d.branchCount frame.content = d'.branchCount frame.content) (x : Statement) (line : Option Int) :
    v.attempt (d.feed x line) = v.attempt (d'.feed x line) := by
  by_cases hx : ∃ b, x = .blockBranch b
  · obtain ⟨b, rfl⟩ := hx
    exact v.openBranch h (hb b.keyword) b.label
  · rw [← v.feed d (not_exists.1 hx), h, v.feed d' (not_exists.1 hx)]

end View

end Lifeline
