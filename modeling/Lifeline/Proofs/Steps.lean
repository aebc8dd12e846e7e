import Lifeline.Draft.Operation
/-!
# What an operation does to a draft

Every operation comes down to a few events, and `Step` says all that an event does,
with what has to hold before it. A successful operation takes the steps of its
events (`steps_of_ok`); a failed one has at most mentioned some participants
(`steps_of_error`). An invariant of drafts is proved for one step at a time.
-/

namespace Lifeline

/-- What can happen to a draft. -/
inductive Event where
  | mention (id : String)
  | declare (id : String) (kind : ParticipantKind) (label : Option String)
  | create (id : String) (kind : ParticipantKind) (label : Option String)
  | destroy (id : String)
  | link (id : String) (link : Link)
  | number (enabled : Bool)
  | openBox (heading : Color.Heading)
  | message (m : Message)
  | note (n : Note)
  | activation (id : String) (activate : Bool)
  | openBlock (kind : BlockKind) (label color : Option String)
  | openBranch (keyword : String) (label : Option String)
  | close
  | extend (text : String)

/-- A link with both parts trimmed. -/
def Link.trimmed (l : Link) : Link := ⟨l.label.trimmed, l.url.trimmed⟩

/-- The roster after participants are mentioned in order, unless one is refused. -/
def Roster.mentionAll? (r : Roster) : List String → Option Roster
  | [] => some r
  | id :: ids => (r.mention? id).bind fun r => r.mentionAll? ids

namespace Draft

/-- The message as it comes to stand in the timeline. -/
def placed (d : Draft) (m : Message) : Message :=
  { m with text := m.text.map Text.normalized, order := d.nextOrder }

/-- The note as it comes to stand in the timeline. -/
def placedNote (d : Draft) (n : Note) : Note :=
  { n with text := Text.normalized n.text, order := d.nextOrder }

/-- A directive as it comes to stand in the timeline. -/
def directive (d : Draft) (kind : DirectiveKind) (id : String) : Statement :=
  .directive { kind, id, order := d.nextOrder }

/-- The tree with a directive where it grows. -/
def hungDirective (d : Draft) (kind : DirectiveKind) (id : String) : List Node :=
  d.hung (.directive { kind, id, order := d.nextOrder })

/-! ### What stays as it was

A participant that joins a box changes the boxes, and a message that settles what waits changes
participants and what waits for them. -/

theorem joinBox_eq (d : Draft) (id : String) : ∃ boxes, d.joinBox id = { d with boxes } := by
  unfold joinBox
  split
  · exact ⟨d.boxes, rfl⟩
  · split
    · exact ⟨d.boxes, rfl⟩
    · exact ⟨_, rfl⟩

theorem settle_eq (d : Draft) (m : Message) : ∃ roster awaitingCreate awaitingDestroy,
    d.settle m = { d with roster, awaitingCreate, awaitingDestroy } := by
  unfold settle crossOut
  split <;> exact ⟨_, _, _, rfl⟩

section Frame

variable (d : Draft) (id : String) (m : Message)

@[simp] theorem past_joinBox : (d.joinBox id).past = d.past := by
  obtain ⟨boxes, h⟩ := d.joinBox_eq id
  rw [h]

@[simp] theorem frames_joinBox : (d.joinBox id).frames = d.frames := by
  obtain ⟨boxes, h⟩ := d.joinBox_eq id
  rw [h]

@[simp] theorem roster_joinBox : (d.joinBox id).roster = d.roster := by
  obtain ⟨boxes, h⟩ := d.joinBox_eq id
  rw [h]

@[simp] theorem statements_joinBox : (d.joinBox id).statements = d.statements := by
  obtain ⟨boxes, h⟩ := d.joinBox_eq id
  rw [h]

@[simp] theorem past_settle : (d.settle m).past = d.past := by
  obtain ⟨roster, awaitingCreate, awaitingDestroy, h⟩ := d.settle_eq m
  rw [h]

@[simp] theorem statements_settle : (d.settle m).statements = d.statements := by
  obtain ⟨roster, awaitingCreate, awaitingDestroy, h⟩ := d.settle_eq m
  rw [h]

@[simp] theorem frames_settle : (d.settle m).frames = d.frames := by
  obtain ⟨roster, awaitingCreate, awaitingDestroy, h⟩ := d.settle_eq m
  rw [h]

@[simp] theorem boxes_settle : (d.settle m).boxes = d.boxes := by
  obtain ⟨roster, awaitingCreate, awaitingDestroy, h⟩ := d.settle_eq m
  rw [h]

@[simp] theorem autonumber_settle : (d.settle m).autonumber = d.autonumber := by
  obtain ⟨roster, awaitingCreate, awaitingDestroy, h⟩ := d.settle_eq m
  rw [h]

end Frame

/-- One event, the draft before it and the draft after it. -/
inductive Step (d : Draft) : Event → Draft → Prop where
  | mention {id r} (h : d.roster.mention? id = some r) : Step d (.mention id) { d with roster := r }
  | declare {id kind label r} (h : d.roster.declare? id kind label true = some r) :
      Step d (.declare id kind label) (({ d with roster := r } : Draft).joinBox id)
  | create {id kind label r} (h : d.roster.declare? id kind label true = some r) :
      Step d (.create id kind label)
        { d with roster := r, past := d.directive .create id :: d.past
                 statements := d.hungDirective .create id
                 awaitingCreate := d.awaitingCreate.set id d.nextOrder }
  | destroyAtLast {id r m older} (h : d.roster.mention? id = some r)
      (hp : d.past = .message m :: older) (hm : m.involves id = true) :
      Step d (.destroy id)
        { d with roster := r.modify id fun p => { p with destroyedAt := some m.order }
                 past := d.directive .destroy id :: d.past
                 statements := d.hungDirective .destroy id }
  | destroyLater {id r} (h : d.roster.mention? id = some r)
      (hp : ∀ m older, d.past = .message m :: older → m.involves id = false) :
      Step d (.destroy id)
        { d with roster := r, past := d.directive .destroy id :: d.past
                 statements := d.hungDirective .destroy id
                 awaitingDestroy := d.awaitingDestroy.set id d.nextOrder }
  | link {id r} {l : Link} (h : d.roster.mention? id = some r) :
      Step d (.link id l)
        { d with roster := r.modify id fun p => { p with links := p.links ++ [l.trimmed] } }
  | number {b} : Step d (.number b) { d with autonumber := b }
  | openBox {heading line} :
      Step d (.openBox heading)
        { d with boxes := d.boxes ++ [{ label := heading.label, color := heading.color }]
                 frames := { region := .box, line, content := d.boxes.length } :: d.frames }
  | message {m : Message} {r} (hm : m.fault? = none)
      (h : d.roster.mentionAll? [m.source.id, m.target.id] = some r) :
      Step d (.message m)
        (({ d with roster := r, past := .message (d.placed m) :: d.past
                   statements := d.hung (.message (d.placed m)) } : Draft).settle (d.placed m))
  | note {n : Note} {r} (hn : n.fault? = none) (h : d.roster.mentionAll? n.targets = some r) :
      Step d (.note n)
        { d with roster := r, past := .note (d.placedNote n) :: d.past
                 statements := d.hung (.note (d.placedNote n)) }
  | fold {id activate r m m' older} (h : d.roster.mention? id = some r)
      (hp : d.past = .message m :: older) (hm : fold? m id activate = some m') :
      Step d (.activation id activate)
        { d with roster := r, past := .message m' :: older
                 statements := Node.changeAll m'.order (fun _ => .message m') d.statements }
  | activation {id activate r} (h : d.roster.mention? id = some r)
      (hp : ∀ m older, d.past = .message m :: older → fold? m id activate = none) :
      Step d (.activation id activate)
        { d with roster := r
                 past := d.directive (if activate then .activate else .deactivate) id :: d.past
                 statements := d.hungDirective (if activate then .activate else .deactivate) id }
  | openBlock {kind label color line} :
      Step d (.openBlock kind label color)
        { d with past := .blockStart { block := { kind, label, color }, order := d.nextOrder } :: d.past
                 statements := d.hung (.block (.opened kind label color d.nextOrder))
                 frames := { region := .block kind, line, content := d.nextOrder } :: d.frames }
  | openBranch {keyword label frame} (h : d.frames.branch keyword = .ok frame) :
      Step d (.openBranch keyword label)
        { d with past := .blockBranch { keyword, label, order := d.nextOrder, blockOrder := frame.content
                                        branchIndex := d.branchCount frame.content } :: d.past
                 statements := d.changed frame.content (Block.addBranch · label d.nextOrder) }
  | closeBox {frame outer} (hf : d.frames = frame :: outer) (hb : frame.region = .box) :
      Step d .close { d with frames := outer }
  | closeBlock {frame outer kind} (hf : d.frames = frame :: outer) (hb : frame.region = .block kind) :
      Step d .close
        { d with past := .blockEnd { order := d.nextOrder, blockOrder := frame.content } :: d.past
                 statements := d.changed frame.content (Block.close · d.nextOrder)
                 frames := outer }
  | extend {text frame} (hf : d.frames.block? = some frame) :
      Step d (.extend text)
        { d with past := changeAt (d.currentBranch frame.content).startOrder.toNat
                   (relabelItem (d.grownLabel frame.content text)) d.past
                 statements := d.changed frame.content (Block.relabel · (d.grownLabel frame.content text)) }

/-- Events in order, the draft before them and the draft after them. -/
inductive Steps : Draft → List Event → Draft → Prop where
  | nil {d} : Steps d [] d
  | cons {d e d' es d''} (h : Step d e d') (hs : Steps d' es d'') : Steps d (e :: es) d''

theorem Step.single {d d' : Draft} {e : Event} (h : Step d e d') : Steps d [e] d' := .cons h .nil

theorem Steps.append {d d' d'' : Draft} {es es' : List Event} (h : Steps d es d') (h' : Steps d' es' d'') :
    Steps d (es ++ es') d'' := by
  induction h with
  | nil => exact h'
  | cons hs _ ih => exact .cons hs (ih h')

/-- Steps of appended events come one after the other. -/
theorem Steps.split {d d'' : Draft} {es es' : List Event} (h : Steps d (es ++ es') d'') :
    ∃ d', Steps d es d' ∧ Steps d' es' d'' := by
  induction es generalizing d with
  | nil => exact ⟨d, .nil, h⟩
  | cons e es ih =>
    cases h with
    | cons h1 h =>
      obtain ⟨d', hs, hs'⟩ := ih h
      exact ⟨d', .cons h1 hs, hs'⟩

theorem Steps.single_iff {d d' : Draft} {e : Event} : Steps d [e] d' ↔ Step d e d' := by
  refine ⟨fun h => ?_, Step.single⟩
  cases h with
  | cons h hs =>
    cases hs
    exact h

/-- What every step keeps, a run of steps keeps. -/
theorem Steps.keep {I : Draft → Prop} {P : Event → Prop}
    (hI : ∀ {d e d'}, P e → Step d e d' → I d → I d') {d d' : Draft} {es : List Event}
    (h : Steps d es d') (he : ∀ e ∈ es, P e) (hd : I d) : I d' := by
  induction h with
  | nil => exact hd
  | cons hs _ ih =>
    exact ih (fun e hm => he e (by simp [hm])) (hI (he _ (by simp)) hs hd)

end Draft

namespace Operation

/-- The events of a statement that is taken in. -/
def statementEvents (d : Draft) : Statement → List Event
  | .message m => [.message m]
  | .note n => [.note n]
  | .blockStart s => [.openBlock s.block.kind s.block.label s.block.color]
  | .blockBranch b => [.openBranch b.keyword b.label]
  | .blockEnd _ => [.close]
  | .directive x =>
    match x.kind with
    | .activate => [.activation x.id true]
    | .deactivate => [.activation x.id false]
    | .destroy => [.destroy x.id]
    | .create =>
      match d.roster.get? x.id with
      | none => [.create x.id .participant none]
      | some p => [.create p.id p.kind p.label]
  | .declaration p => if p.created then [.create p.id p.kind p.label] else [.declare p.id p.kind p.label]
  | .boxStart heading => [.openBox heading]
  | .links l => l.links.map (.link l.id)
  | .autonumber => [.number true]

/-- The events of an operation on a draft. -/
def events (d : Draft) : Operation → List Event
  | .declare id kind label => [.declare id kind label]
  | .create id kind label => [.create id kind label]
  | .destroy id => [.destroy id]
  | .activate id => [.activation id true]
  | .deactivate id => [.activation id false]
  | .addLink id link => [.link id link]
  | .setAutonumber enabled => [.number enabled]
  | .openBox heading _ => [.openBox heading]
  | .addMessage m => [.message m]
  | .addNote n => [.note n]
  | .startBlock kind label color _ => [.openBlock kind (given label) (given color)]
  | .addBranch label _ =>
    match d.frames.branchKeyword with
    | .ok keyword => [.openBranch keyword (given label)]
    | .error _ => []
  | .close => [.close]
  | .extendLabel text => if d.frames.block?.isSome then [.extend text] else []
  | .feed statement _ => statementEvents d statement

/-- The ids that a statement names in a message or a note. -/
def statementNames : Statement → List String
  | .message m => [m.source.id, m.target.id]
  | .note n => n.targets
  | _ => []

/-- The ids that an operation mentions before it can fail. -/
def names : Operation → List String
  | .addMessage m => [m.source.id, m.target.id]
  | .addNote n => n.targets
  | .feed statement _ => statementNames statement
  | _ => []

end Operation

namespace Draft

variable {d : Draft}

/-! ## Operations that work -/

theorem mention_ok {id : String} {u : Unit} (h : (d.mention id).result = .ok u) :
    ∃ r, d.roster.mention? id = some r ∧ d.mention id = ⟨{ d with roster := r }, .ok ()⟩ := by
  unfold mention at h ⊢
  cases hr : d.roster.mention? id with
  | none => simp [hr] at h
  | some r => exact ⟨r, rfl, rfl⟩

theorem mentionAll_ok {ids : List String} {u : Unit} (h : (d.mentionAll ids).result = .ok u) :
    ∃ r, d.roster.mentionAll? ids = some r ∧ d.mentionAll ids = ⟨{ d with roster := r }, .ok ()⟩ := by
  induction ids generalizing d with
  | nil => exact ⟨d.roster, rfl, rfl⟩
  | cons id ids ih =>
    simp only [mentionAll, Attempt.andThen] at h ⊢
    cases hm : (d.mention id).result with
    | error e => simp [hm] at h
    | ok u =>
      obtain ⟨r, hr, hd⟩ := mention_ok hm
      rw [hd] at h ⊢
      obtain ⟨r', hr', hd'⟩ := ih h
      exact ⟨r', by simp [Roster.mentionAll?, hr, hr'], hd'⟩

theorem register_ok {id kind label} {u : Unit} (h : (d.register id kind label).result = .ok u) :
    ∃ r, d.roster.declare? id kind label true = some r ∧
      d.register id kind label = ⟨{ d with roster := r }, .ok ()⟩ := by
  unfold register at h ⊢
  cases hr : d.roster.declare? id kind label true with
  | none => simp [hr] at h
  | some r => exact ⟨r, rfl, rfl⟩

/-- An attempt with a further step works if both do. -/
theorem andThen_ok {α β : Type} {a : Attempt α} {next : Draft → α → Attempt β} {y : β}
    (h : (a.andThen next).result = .ok y) :
    ∃ x, a.result = .ok x ∧ a.andThen next = next a.draft x := by
  unfold Attempt.andThen at h ⊢
  cases ha : a.result with
  | error e => simp [ha] at h
  | ok x => exact ⟨x, rfl, rfl⟩

theorem step_declare {id kind label a} (h : (d.declare id kind label).result = .ok a) :
    Step d (.declare id kind label) (d.declare id kind label).draft := by
  unfold declare at h ⊢
  obtain ⟨u, hu, he⟩ := andThen_ok h
  obtain ⟨r, hr, hd⟩ := register_ok hu
  rw [he, hd]
  exact .declare hr

theorem step_create {id kind label a} (h : (d.create id kind label).result = .ok a) :
    Step d (.create id kind label) (d.create id kind label).draft := by
  unfold create at h ⊢
  obtain ⟨u, hu, he⟩ := andThen_ok h
  obtain ⟨r, hr, hd⟩ := register_ok hu
  rw [he, hd]
  exact .create hr

theorem step_destroy {id a} (h : (d.destroy id).result = .ok a) :
    Step d (.destroy id) (d.destroy id).draft := by
  unfold destroy at h ⊢
  obtain ⟨u, hu, he⟩ := andThen_ok h
  obtain ⟨r, hr, hd⟩ := mention_ok hu
  rw [he, hd]
  dsimp only
  split
  · rename_i m older hp
    split
    · rename_i hm
      exact .destroyAtLast hr hp hm
    · rename_i hm
      refine .destroyLater hr fun m' older' hp' => ?_
      simp only [hp, List.cons.injEq, Statement.message.injEq] at hp'
      rw [← hp'.1]
      simpa using hm
  · rename_i hp
    exact .destroyLater hr fun m older hp' => absurd hp' (hp m older)

theorem step_addLink {id l a} (h : (d.addLink id l).result = .ok a) :
    Step d (.link id l) (d.addLink id l).draft := by
  unfold addLink at h ⊢
  obtain ⟨u, hu, he⟩ := andThen_ok h
  obtain ⟨r, hr, hd⟩ := mention_ok hu
  rw [he, hd]
  exact .link hr

theorem steps_addLinks {id ls a} (h : (d.addLinks id ls).result = .ok a) :
    Steps d (ls.map (.link id)) (d.addLinks id ls).draft := by
  induction ls generalizing d with
  | nil => exact .nil
  | cons l ls ih =>
    unfold addLinks at h ⊢
    obtain ⟨x, hx, he⟩ := andThen_ok h
    rw [he] at h ⊢
    exact .cons (step_addLink hx) (ih h)

theorem step_addMessage {m a} (h : (d.addMessage m).result = .ok a) :
    Step d (.message m) (d.addMessage m).draft := by
  unfold addMessage at h ⊢
  split at h
  · simp at h
  · rename_i hf
    obtain ⟨u, hu, he⟩ := andThen_ok h
    obtain ⟨r, hr, hd⟩ := mentionAll_ok hu
    rw [he, hd]
    exact .message hf hr

theorem step_addNote {n a} (h : (d.addNote n).result = .ok a) :
    Step d (.note n) (d.addNote n).draft := by
  unfold addNote at h ⊢
  split at h
  · simp at h
  · rename_i hf
    obtain ⟨u, hu, he⟩ := andThen_ok h
    obtain ⟨r, hr, hd⟩ := mentionAll_ok hu
    rw [he, hd]
    exact .note hf hr

theorem step_activation {id activate a} (h : (d.activation id activate).result = .ok a) :
    Step d (.activation id activate) (d.activation id activate).draft := by
  unfold activation at h ⊢
  obtain ⟨u, hu, he⟩ := andThen_ok h
  obtain ⟨r, hr, hd⟩ := mention_ok hu
  rw [he, hd]
  dsimp only
  split
  · rename_i m older hp
    split
    · rename_i m' hm
      exact .fold hr hp hm
    · rename_i hm
      refine .activation hr fun m' older' hp' => ?_
      simp only [hp, List.cons.injEq, Statement.message.injEq] at hp'
      rw [← hp'.1]
      exact hm
  · rename_i hp
    exact .activation hr fun m older hp' => absurd hp' (hp m older)

theorem step_openBranch {keyword label a} (h : (d.openBranch keyword label).result = .ok a) :
    Step d (.openBranch keyword label) (d.openBranch keyword label).draft := by
  unfold openBranch at h ⊢
  cases hf : d.frames.branch keyword with
  | error e => simp [hf] at h
  | ok frame => exact .openBranch hf

theorem step_close {a} (h : d.close.result = .ok a) : Step d .close d.close.draft := by
  unfold close at h ⊢
  cases hf : d.frames with
  | nil => simp [hf, Frames.pop] at h
  | cons frame outer =>
    simp only [Frames.pop]
    cases hb : frame.region with
    | box => exact .closeBox hf hb
    | block kind => exact .closeBlock hf hb

theorem steps_feed {statement line a} (h : (d.feed statement line).result = .ok a) :
    Steps d (Operation.statementEvents d statement) (d.feed statement line).draft := by
  cases statement with
  | message m => exact (step_addMessage h).single
  | note n => exact (step_addNote h).single
  | blockStart s => exact Step.openBlock.single
  | blockBranch b => exact (step_openBranch h).single
  | blockEnd e => exact (step_close h).single
  | directive x =>
    unfold feed follow at h ⊢
    unfold Operation.statementEvents
    cases hk : x.kind with
    | activate => simp only [hk] at h ⊢; exact (step_activation h).single
    | deactivate => simp only [hk] at h ⊢; exact (step_activation h).single
    | destroy => simp only [hk] at h ⊢; exact (step_destroy h).single
    | create =>
      simp only [hk] at h ⊢
      cases hp : d.roster.get? x.id with
      | none => simp only [hp] at h ⊢; exact (step_create h).single
      | some p => simp only [hp] at h ⊢; exact (step_create h).single
  | declaration p =>
    unfold feed at h ⊢
    unfold Operation.statementEvents
    cases hc : p.created with
    | true => simp only [hc, if_true] at h ⊢; exact (step_create h).single
    | false =>
      simp only [hc, Bool.false_eq_true, if_false] at h ⊢
      exact (step_declare h).single
  | boxStart heading => exact Step.openBox.single
  | links l => exact steps_addLinks h
  | autonumber => exact Step.number.single

theorem steps_extendLabel (d : Draft) (text : String) :
    Steps d (if d.frames.block?.isSome then [.extend text] else []) (d.extendLabel text).1 := by
  unfold extendLabel
  cases hf : d.frames.block? with
  | none => exact .nil
  | some frame => exact (Step.extend hf).single

/-- A successful operation takes the steps of its events. -/
theorem steps_of_ok {op : Operation} {a : Answer} (h : (d.apply op).result = .ok a) :
    Steps d (op.events d) (d.apply op).draft := by
  cases op with
  | declare id kind label => exact (step_declare h).single
  | create id kind label => exact (step_create h).single
  | destroy id => exact (step_destroy h).single
  | activate id => exact (step_activation h).single
  | deactivate id => exact (step_activation h).single
  | addLink id l => exact (step_addLink h).single
  | setAutonumber b => exact Step.number.single
  | openBox heading line => exact Step.openBox.single
  | addMessage m => exact (step_addMessage h).single
  | addNote n => exact (step_addNote h).single
  | startBlock kind label color line => exact Step.openBlock.single
  | addBranch label line =>
    unfold apply addBranch at h ⊢
    unfold Operation.events
    cases hk : d.frames.branchKeyword with
    | error e => simp [hk] at h
    | ok keyword => simp only [hk] at h ⊢; exact (step_openBranch h).single
  | close => exact (step_close h).single
  | extendLabel text => exact steps_extendLabel d text
  | feed statement line =>
    obtain ⟨x, hx, he⟩ := andThen_ok h
    exact (congrArg Attempt.draft he).symm ▸ steps_feed hx

/-! ## Operations that fail -/

/-- The draft has at most mentioned some of the given ids. -/
def Mentioned (d : Draft) (ids : List String) (d' : Draft) : Prop :=
  ∃ some, some <+: ids ∧ Steps d (some.map .mention) d'

theorem Mentioned.none {ids : List String} : Mentioned d ids d := ⟨[], List.nil_prefix, .nil⟩

theorem mention_error {id e} (h : (d.mention id).result = .error e) : (d.mention id).draft = d := by
  unfold mention at h ⊢
  cases hr : d.roster.mention? id with
  | none => rfl
  | some r => simp [hr] at h

theorem mentionAll_error {ids e} (h : (d.mentionAll ids).result = .error e) :
    Mentioned d ids (d.mentionAll ids).draft := by
  induction ids generalizing d with
  | nil => simp [mentionAll] at h
  | cons id ids ih =>
    unfold mentionAll Attempt.andThen at h ⊢
    cases hm : (d.mention id).result with
    | error e' =>
      dsimp only
      rw [mention_error hm]
      exact .none
    | ok u =>
      obtain ⟨r, hr, hd⟩ := mention_ok hm
      simp only [hm] at h ⊢
      obtain ⟨ids', hp, hs⟩ := ih h
      rw [hd] at hs ⊢
      exact ⟨id :: ids', List.cons_prefix_cons.2 ⟨rfl, hp⟩, .cons (.mention hr) hs⟩

theorem register_error {id kind label e} (h : (d.register id kind label).result = .error e) :
    (d.register id kind label).draft = d := by
  unfold register at h ⊢
  cases hr : d.roster.declare? id kind label true with
  | none => rfl
  | some r => simp [hr] at h

/-- When what follows never fails, the failure was in what came first. -/
theorem andThen_error {α β : Type} {a : Attempt α} {next : Draft → α → Attempt β} {e : DraftError}
    (h : (a.andThen next).result = .error e) (hn : ∀ x e, (next a.draft x).result ≠ .error e) :
    a.result = .error e ∧ (a.andThen next).draft = a.draft := by
  unfold Attempt.andThen at h ⊢
  cases ha : a.result with
  | error e' => simp only [ha, Except.error.injEq] at h; exact ⟨by rw [h], rfl⟩
  | ok x => simp only [ha] at h; exact absurd h (hn x e)

theorem declare_error {id kind label e} (h : (d.declare id kind label).result = .error e) :
    (d.declare id kind label).draft = d := by
  obtain ⟨hr, hd⟩ := andThen_error h (by simp)
  exact hd.trans (register_error hr)

theorem create_error {id kind label e} (h : (d.create id kind label).result = .error e) :
    (d.create id kind label).draft = d := by
  obtain ⟨hr, hd⟩ := andThen_error h (by simp)
  exact hd.trans (register_error hr)

theorem destroy_error {id e} (h : (d.destroy id).result = .error e) : (d.destroy id).draft = d := by
  obtain ⟨hm, hd⟩ := andThen_error h (by
    intro x e
    dsimp only
    split
    · split <;> simp
    · simp)
  exact hd.trans (mention_error hm)

theorem addLink_error {id l e} (h : (d.addLink id l).result = .error e) : (d.addLink id l).draft = d := by
  obtain ⟨hm, hd⟩ := andThen_error h (by simp)
  exact hd.trans (mention_error hm)

theorem activation_error {id activate e} (h : (d.activation id activate).result = .error e) :
    (d.activation id activate).draft = d := by
  obtain ⟨hm, hd⟩ := andThen_error h (by
    intro x e
    dsimp only
    split
    · split <;> simp
    · simp)
  exact hd.trans (mention_error hm)

/-! ## Known participants -/

end Draft

namespace Roster

variable {r r' : Roster} {id : String}

theorem mention?_of_contains (h : r.contains id = true) : r.mention? id = some r := by
  simp [mention?, h]

theorem mention?_eq_some (h : r.mention? id = some r') :
    (r.contains id = true ∧ r' = r) ∨ (r.contains id = false ∧ id ≠ "" ∧ r' = r.add (.implicit id)) := by
  unfold mention? at h
  cases hc : r.contains id with
  | true => simp only [hc, if_true, Option.some.injEq] at h; exact .inl ⟨rfl, h.symm⟩
  | false =>
    simp only [hc, Bool.false_eq_true, if_false] at h
    split at h
    · cases h
    · rename_i hne
      exact .inr ⟨rfl, by simpa using hne, (Option.some.inj h).symm⟩

theorem contains_of_mention? (h : r.mention? id = some r') : r'.contains id = true := by
  rcases mention?_eq_some h with ⟨hc, rfl⟩ | ⟨-, -, rfl⟩
  · exact hc
  · simp [contains, add, Participant.implicit]

theorem contains_modify {change : Participant → Participant} (h : ∀ p, (change p).id = p.id) (i : String) :
    (r.modify id change).contains i = r.contains i := by
  rw [contains_eq, contains_eq, ids_modify r id h]

end Roster

namespace Draft

variable {d : Draft}

theorem Step.contains_of_link {id : String} {l : Link} {d' : Draft} (h : Step d (.link id l) d') :
    d'.roster.contains id = true := by
  cases h with
  | link h =>
    refine (Roster.contains_modify ?_ id).trans (Roster.contains_of_mention? h)
    exact fun _ => rfl

theorem addLinks_of_contains {id : String} (hc : d.roster.contains id = true) (ls : List Link) :
    (d.addLinks id ls).result = .ok .done := by
  induction ls generalizing d with
  | nil => rfl
  | cons l ls ih =>
    have hm : d.mention id = ⟨d, .ok ()⟩ := by simp [mention, Roster.mention?_of_contains hc]
    unfold addLinks addLink
    rw [hm]
    refine ih ((Roster.contains_modify ?_ id).trans hc)
    exact fun _ => rfl

theorem addLinks_error {id ls e} (h : (d.addLinks id ls).result = .error e) :
    (d.addLinks id ls).draft = d := by
  cases ls with
  | nil => rfl
  | cons l ls =>
    unfold addLinks Attempt.andThen at h ⊢
    cases hl : (d.addLink id l).result with
    | error e' => exact addLink_error hl
    | ok a =>
      simp [hl, addLinks_of_contains (step_addLink hl).contains_of_link] at h

theorem addMessage_error {m e} (h : (d.addMessage m).result = .error e) :
    Mentioned d [m.source.id, m.target.id] (d.addMessage m).draft := by
  unfold addMessage at h ⊢
  split at h
  · exact .none
  · obtain ⟨hm, hd⟩ := andThen_error h (by simp)
    rw [hd]
    exact mentionAll_error hm

theorem addNote_error {n e} (h : (d.addNote n).result = .error e) :
    Mentioned d n.targets (d.addNote n).draft := by
  unfold addNote at h ⊢
  split at h
  · exact .none
  · obtain ⟨hm, hd⟩ := andThen_error h (by simp)
    rw [hd]
    exact mentionAll_error hm

theorem openBranch_error {keyword label e} (h : (d.openBranch keyword label).result = .error e) :
    (d.openBranch keyword label).draft = d := by
  unfold openBranch at h ⊢
  cases hf : d.frames.branch keyword with
  | error e' => rfl
  | ok frame => simp [hf] at h

theorem close_error {e} (h : d.close.result = .error e) : d.close.draft = d := by
  unfold close at h ⊢
  cases hf : d.frames with
  | nil => simp [Frames.pop]
  | cons frame outer =>
    simp only [hf, Frames.pop] at h
    split at h <;> simp at h

theorem feed_error {statement line e} (h : (d.feed statement line).result = .error e) :
    Mentioned d (Operation.statementNames statement) (d.feed statement line).draft := by
  have same : ∀ {d' : Draft}, d' = d → Mentioned d [] d' := fun h => h ▸ .none
  cases statement with
  | message m => exact addMessage_error h
  | note n => exact addNote_error h
  | blockStart s => cases h
  | blockBranch b => exact same (openBranch_error h)
  | blockEnd x => exact same (close_error h)
  | directive x =>
    unfold feed follow at h ⊢
    cases hk : x.kind with
    | activate => simp only [hk] at h ⊢; exact same (activation_error h)
    | deactivate => simp only [hk] at h ⊢; exact same (activation_error h)
    | destroy => simp only [hk] at h ⊢; exact same (destroy_error h)
    | create =>
      simp only [hk] at h ⊢
      cases hp : d.roster.get? x.id with
      | none => simp only [hp] at h ⊢; exact same (create_error h)
      | some p => simp only [hp] at h ⊢; exact same (create_error h)
  | declaration p =>
    unfold feed at h ⊢
    cases hc : p.created with
    | true => simp only [hc, if_true] at h ⊢; exact same (create_error h)
    | false =>
      simp only [hc, Bool.false_eq_true, if_false] at h ⊢
      exact same (declare_error h)
  | boxStart heading => cases h
  | links l => exact same (addLinks_error h)
  | autonumber => cases h

/-- A failed operation has at most mentioned some of the participants that it names. -/
theorem steps_of_error {op : Operation} {e : DraftError} (h : (d.apply op).result = .error e) :
    Mentioned d op.names (d.apply op).draft := by
  have same : ∀ {d' : Draft}, d' = d → Mentioned d [] d' := fun h => h ▸ .none
  cases op with
  | declare id kind label => exact same (declare_error h)
  | create id kind label => exact same (create_error h)
  | destroy id => exact same (destroy_error h)
  | activate id => exact same (activation_error h)
  | deactivate id => exact same (activation_error h)
  | addLink id l => exact same (addLink_error h)
  | setAutonumber b => cases h
  | openBox heading line => cases h
  | addMessage m => exact addMessage_error h
  | addNote n => exact addNote_error h
  | startBlock kind label color line => cases h
  | addBranch label line =>
    unfold apply addBranch at h ⊢
    cases hk : d.frames.branchKeyword with
    | error e' => exact .none
    | ok keyword => simp only [hk] at h ⊢; exact same (openBranch_error h)
  | close => exact same (close_error h)
  | extendLabel text => cases h
  | feed statement line =>
    obtain ⟨hf, hd⟩ := andThen_error h (by simp)
    exact hd.symm ▸ feed_error hf

/-- The draft after an operation is reached by steps, whether it works or fails. -/
theorem steps_apply (d : Draft) (op : Operation) : ∃ es, Steps d es (d.apply op).draft := by
  cases h : (d.apply op).result with
  | ok a => exact ⟨_, steps_of_ok h⟩
  | error e => exact ⟨_, (steps_of_error h).choose_spec.2⟩

/-- The draft after a run of operations is reached by steps. -/
theorem steps_run (d : Draft) (ops : List Operation) : ∃ es, Steps d es (d.run ops) := by
  induction ops generalizing d with
  | nil => exact ⟨[], .nil⟩
  | cons op ops ih =>
    obtain ⟨es, hs⟩ := steps_apply d op
    obtain ⟨es', hs'⟩ := ih (d.apply op).draft
    exact ⟨es ++ es', hs.append hs'⟩

/-- What every step keeps holds after every run. -/
theorem run_keep {I : Draft → Prop} (h0 : I {}) (hI : ∀ {d e d'}, Step d e d' → I d → I d')
    (ops : List Operation) : I (run {} ops) := by
  obtain ⟨es, hs⟩ := steps_run {} ops
  exact hs.keep (P := fun _ => True) (fun _ => hI) (fun _ _ => trivial) h0

end Draft

end Lifeline
