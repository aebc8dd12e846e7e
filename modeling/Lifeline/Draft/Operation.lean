import Lifeline.Draft.Build
/-!
# Operations on a draft

What can be done to a diagram under construction, as functions and as a type of
operations. `apply` runs one operation and `run` a list of them; a failed
operation does not stop a run. Every item that an operation adds takes the next
order, and boxes take none.
-/

namespace Lifeline

/-- One thing to do to a draft. -/
inductive Operation where
  | declare (id : String) (kind : ParticipantKind) (label : Option String)
  | create (id : String) (kind : ParticipantKind) (label : Option String)
  | destroy (id : String)
  | activate (id : String)
  | deactivate (id : String)
  | addLink (id : String) (link : Link)
  | setAutonumber (enabled : Bool)
  | openBox (heading : Color.Heading) (line : Option Int)
  | addMessage (m : Message)
  | addNote (n : Note)
  | startBlock (kind : BlockKind) (label color : Option String) (line : Option Int)
  | addBranch (label : Option String) (line : Option Int)
  | close
  | extendLabel (text : String)
  | feed (statement : Statement) (line : Option Int)

/-- What an operation answers. Boxes and blocks grow as long as they are open, so a box
is answered by its place among the boxes and a block by the order of its start. -/
inductive Answer where
  | participant (p : Participant)
  | directive (d : Directive)
  | message (m : Message)
  | note (n : Note)
  | link (l : Link)
  | box (place : Nat)
  | block (start : Nat)
  | branch (b : Branch)
  | flag (b : Bool)
  | done

/-- A text that counts as given only if it is not empty. -/
def given (text : Option String) : Option String := text.filter fun s => !s.isEmpty

namespace Draft

/-! ## Participants -/

/-- Declares a participant, which joins the innermost open box. -/
def declare (d : Draft) (id : String) (kind : ParticipantKind) (label : Option String) :
    Attempt Answer :=
  (d.register id kind label).andThen fun d _ =>
    ⟨d.joinBox id, .ok (.participant (d.participant id))⟩

/-- Declares a participant where it is created. It joins no box. -/
def create (d : Draft) (id : String) (kind : ParticipantKind) (label : Option String) :
    Attempt Answer :=
  (d.register id kind label).andThen fun d _ =>
    let directive : Directive := { kind := .create, id, order := d.nextOrder }
    ⟨{ d.appendNode (.directive directive) (.directive directive) with
        awaitingCreate := d.awaitingCreate.set id directive.order },
      .ok (.directive directive)⟩

/-- Destroys a participant: at the message just before if it has part in it, and
otherwise at its next message. -/
def destroy (d : Draft) (id : String) : Attempt Answer :=
  (d.mention id).andThen fun d _ =>
    let directive : Directive := { kind := .destroy, id, order := d.nextOrder }
    let after := d.appendNode (.directive directive) (.directive directive)
    let waiting := { after with awaitingDestroy := d.awaitingDestroy.set id directive.order }
    match d.past with
    | .message m :: _ =>
      if m.involves id then
        ⟨{ after with roster := d.roster.modify id fun p => { p with destroyedAt := some m.order } },
          .ok (.directive directive)⟩
      else ⟨waiting, .ok (.directive directive)⟩
    | _ => ⟨waiting, .ok (.directive directive)⟩

/-- Attaches a link, both parts trimmed. -/
def addLink (d : Draft) (id : String) (link : Link) : Attempt Answer :=
  (d.mention id).andThen fun d _ =>
    let link : Link := ⟨link.label.trimmed, link.url.trimmed⟩
    ⟨{ d with roster := d.roster.modify id fun p => { p with links := p.links ++ [link] } },
      .ok (.link link)⟩

/-- Attaches several links to one participant. -/
def addLinks (d : Draft) (id : String) : List Link → Attempt Answer
  | [] => ⟨d, .ok .done⟩
  | link :: links => (d.addLink id link).andThen fun d _ => d.addLinks id links

/-! ## Messages and notes -/

/-- Adds a message with its text normalised. -/
def addMessage (d : Draft) (m : Message) : Attempt Answer :=
  match m.fault? with
  | some fault => ⟨d, .error (.invalid fault)⟩
  | none =>
    (d.mentionAll [m.source.id, m.target.id]).andThen fun d _ =>
      let m := { m with text := m.text.map Text.normalized, order := d.nextOrder }
      ⟨(d.appendNode (.message m) (.message m)).settle m, .ok (.message m)⟩

/-- Adds a note with its text normalised. -/
def addNote (d : Draft) (n : Note) : Attempt Answer :=
  match n.fault? with
  | some fault => ⟨d, .error (.invalid fault)⟩
  | none =>
    (d.mentionAll n.targets).andThen fun d _ =>
      let n := { n with text := Text.normalized n.text, order := d.nextOrder }
      ⟨d.appendNode (.note n) (.note n), .ok (.note n)⟩

/-- Activates or deactivates a participant: in the message just before if one of its
ends is free for that, and otherwise by a directive. -/
def activation (d : Draft) (id : String) (activate : Bool) : Attempt Answer :=
  (d.mention id).andThen fun d _ =>
    let directive : Directive :=
      { kind := if activate then .activate else .deactivate, id, order := d.nextOrder }
    let after := d.appendNode (.directive directive) (.directive directive)
    match d.past with
    | .message m :: older =>
      match fold? m id activate with
      | some m =>
        ⟨{ d with
            past := .message m :: older
            statements := Node.changeAll m.order (fun _ => .message m) d.statements },
          .ok (.message m)⟩
      | none => ⟨after, .ok (.directive directive)⟩
    | _ => ⟨after, .ok (.directive directive)⟩

/-! ## Blocks and boxes -/

/-- Opens a box. -/
def openBox (d : Draft) (heading : Color.Heading) (line : Option Int) : Attempt Answer :=
  let box : Box := { label := heading.label, color := heading.color }
  ⟨{ d with
      boxes := d.boxes ++ [box]
      frames := { region := .box, line, content := d.boxes.length } :: d.frames },
    .ok (.box d.boxes.length)⟩

/-- Opens a block. -/
def openBlock (d : Draft) (kind : BlockKind) (label color : Option String) (line : Option Int) :
    Attempt Answer :=
  let start := d.nextOrder
  let item : Statement := .blockStart { block := { kind, label, color }, order := start }
  let block : Block := .opened kind label color start
  ⟨{ d.appendNode item (.block block) with frames := { region := .block kind, line, content := start } :: d.frames },
    .ok (.block start)⟩

/-- Opens a further branch of the innermost block, which the keyword must fit. -/
def openBranch (d : Draft) (keyword : String) (label : Option String) : Attempt Answer :=
  match d.frames.branch keyword with
  | .error e => ⟨d, .error (.frame e)⟩
  | .ok frame =>
    let order := d.nextOrder
    let item : Statement := .blockBranch
      { keyword, label, order, blockOrder := frame.content
        branchIndex := d.branchCount frame.content }
    ⟨{ d.append item with statements := d.changed frame.content (Block.addBranch · label order) },
      .ok (.branch { label, startOrder := order })⟩

/-- Opens a further branch of the innermost block by the keyword of its kind. -/
def addBranch (d : Draft) (label : Option String) : Attempt Answer :=
  match d.frames.branchKeyword with
  | .error e => ⟨d, .error (.frame e)⟩
  | .ok keyword => d.openBranch keyword (given label)

/-- Closes the innermost block or box. -/
def close (d : Draft) : Attempt Answer :=
  match d.frames.pop with
  | .error e => ⟨d, .error (.frame e)⟩
  | .ok (frame, frames) =>
    match frame.region with
    | .box => ⟨{ d with frames }, .ok (.box frame.content)⟩
    | .block _ =>
      let order := d.nextOrder
      let item : Statement := .blockEnd { order, blockOrder := frame.content }
      ⟨{ d.append item with frames, statements := d.changed frame.content (Block.close · order) },
        .ok (.block frame.content)⟩

/-- Adds a text to the label of the innermost block's current branch; answers whether
a block is open. -/
def extendLabel (d : Draft) (text : String) : Draft × Bool :=
  match d.frames.block? with
  | none => (d, false)
  | some frame => (d.growBlock frame.content text, true)

/-! ## Statements -/

/-- Follows a directive. A participant that is created again keeps its kind and
label. -/
def follow (d : Draft) (directive : Directive) : Attempt Answer :=
  match directive.kind with
  | .activate => d.activation directive.id true
  | .deactivate => d.activation directive.id false
  | .destroy => d.destroy directive.id
  | .create =>
    match d.roster.get? directive.id with
    | none => d.create directive.id .participant none
    | some p => d.create p.id p.kind p.label

/-- Takes in one statement, read from the given line. -/
def feed (d : Draft) (statement : Statement) (line : Option Int) : Attempt Answer :=
  match statement with
  | .message m => d.addMessage m
  | .note n => d.addNote n
  | .blockStart s => d.openBlock s.block.kind s.block.label s.block.color line
  | .blockBranch b => d.openBranch b.keyword b.label
  | .blockEnd _ => d.close
  | .directive directive => d.follow directive
  | .declaration p =>
    if p.created then d.create p.id p.kind p.label else d.declare p.id p.kind p.label
  | .boxStart heading => d.openBox heading line
  | .links l => d.addLinks l.id l.links
  | .autonumber => ⟨{ d with autonumber := true }, .ok .done⟩

/-- Runs one operation. -/
def apply (d : Draft) : Operation → Attempt Answer
  | .declare id kind label => d.declare id kind label
  | .create id kind label => d.create id kind label
  | .destroy id => d.destroy id
  | .activate id => d.activation id true
  | .deactivate id => d.activation id false
  | .addLink id link => d.addLink id link
  | .setAutonumber enabled => ⟨{ d with autonumber := enabled }, .ok .done⟩
  | .openBox heading line => d.openBox heading line
  | .addMessage m => d.addMessage m
  | .addNote n => d.addNote n
  | .startBlock kind label color line => d.openBlock kind (given label) (given color) line
  | .addBranch label _ => d.addBranch label
  | .close => d.close
  | .extendLabel text =>
    let (d, extended) := d.extendLabel text
    ⟨d, .ok (.flag extended)⟩
  | .feed statement line => (d.feed statement line).andThen fun d _ => ⟨d, .ok .done⟩

/-- Runs operations in order, failed ones included. -/
def run (d : Draft) (operations : List Operation) : Draft :=
  operations.foldl (fun d operation => (d.apply operation).draft) d

end Draft

end Lifeline
