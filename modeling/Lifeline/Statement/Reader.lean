import Lifeline.Statement.LineKind
import Lifeline.Text.Inline
/-!
# Reading a statement

A reader for each kind of line. A line that was classified by its first word may
still not have the form of its kind, and a reader may be given a line of any
other kind: it then says what is wrong with it.
-/

namespace Lifeline

open Text Text.Pattern

/-- The result of reading a line. -/
abbrev Reading (α : Type) := Except LineError α

/-! ## Participants -/

/-- Whether a character may not stand in an id. -/
def isReserved (c : Char) : Bool := c == ',' || c == ':' || c == '<' || c == '>'

/-- An id, trimmed: not empty, without reserved characters and without an arrow. -/
def readId (line : List Char) (cs : List Char) : Reading String :=
  let id := trim cs
  if id.isEmpty then .error (.missingId (String.ofList line))
  else if id.any isReserved || (Arrow.find? id).isSome then .error (.invalidId (String.ofList id))
  else .ok (String.ofList id)

/-- The ids among which a line is divided by commas. -/
def splitCommas : List Char → List (List Char)
  | [] => [[]]
  | c :: cs =>
    if c == ',' then [] :: splitCommas cs
    else match splitCommas cs with
      | [] => [[c]]
      | piece :: pieces => (c :: piece) :: pieces

/-- Several ids in order, up to the first that is refused. -/
def readIds (line : List Char) : List (List Char) → Reading (List String)
  | [] => .ok []
  | piece :: pieces =>
    match readId line piece with
    | .error e => .error e
    | .ok id => (readIds line pieces).map (id :: ·)

/-- What may follow an id in a declaration: a label after `as`, or the end of the
line. -/
def aliasOrEnd : Matcher (Option (List Char)) := fun cs =>
  match someBlanks (literal "as".toList (someBlanks someRestOfLine)) cs with
  | some label => some (some label)
  | none => (endOfLine cs).map fun _ => none

/-- An id and a label, if there is one. -/
def idAndAlias : Matcher (List Char × Option (List Char)) :=
  someBlanks (someShortest inLine aliasOrEnd)

/-- A declaration from its keyword on. -/
def declared : Matcher (ParticipantKind × List Char × Option (List Char)) := fun cs =>
  ((literal "participant".toList idAndAlias cs).map fun (id, label) =>
      (ParticipantKind.participant, id, label)).or
    ((literal "actor".toList idAndAlias cs).map fun (id, label) => (ParticipantKind.actor, id, label))

/-- A declaration, possibly after `create`. -/
def readDeclaration (line : List Char) : Reading Statement :=
  match (literal "create".toList (someBlanks declared) line).or (declared line) with
  | none => .error (.malformedDeclaration (String.ofList line))
  | some (kind, id, label) =>
    (readId line id).map fun id =>
      .declaration { id, kind
                     label := label.map fun cs => String.ofList (trim cs)
                     created := "create".toList.isPrefixOf line }

/-- The destruction of a participant. -/
def readDestroy (line : List Char) : Reading Statement :=
  (readId line (splitWord line).2).map fun id => .directive { kind := .destroy, id }

/-- An activation, or with any other first word than `activate` a deactivation. -/
def readActivation (line : List Char) : Reading Statement :=
  let (word, rest) := splitWord line
  (readId line rest).map fun id =>
    .directive { kind := if word == "activate".toList then .activate else .deactivate, id }

/-! ## Notes -/

/-- The text after a colon. -/
def textAfterColon (cs : List Char) : String := String.ofList (unescape (trim cs))

/-- Whether a character may stand before the colon of a line. -/
def beforeColon (c : Char) : Bool := c != ':'

/-- The placement word of a note, its targets and its text. -/
def noted : Matcher (List Char × List Char × List Char) :=
  caseless "note".toList fun _ => someBlanks (placementWord fun word => someBlanks fun cs =>
    (someShortest beforeColon (blanks (literal [':'] restOfLine)) cs).map fun (targets, text) =>
      (word, targets, text))

/-- A note. Only one over participants may have several targets. -/
def readNote (line : List Char) : Reading Statement :=
  match noted line with
  | none => .error (.malformedNote (String.ofList line))
  | some (word, targets, text) =>
    match placementOf word with
    | .error e => .error e
    | .ok placement =>
      let pieces := if placement == .over then splitCommas targets else [targets]
      (readIds line pieces).map fun targets =>
        .note { placement, targets, text := textAfterColon text }

/-! ## Links -/

/-- An address: it begins with no blank and runs to the end of the line. -/
def address : Matcher (List Char) := fun cs =>
  if cs.head?.any fun c => !isBlank c then restOfLine cs else none

/-- The id, the label and the address of a single link. -/
def linked : Matcher (List Char × List Char × List Char) :=
  literal "link".toList (someBlanks (someShortest beforeColon (blanks (literal [':'] (blanks
    (someShortest inLine (blanks (literal ['@'] (blanks address)))))))))

/-- A payload between braces up to the end of the line. -/
def braced : Matcher (List Char) := fun cs =>
  (restOfLine cs).filter fun line =>
    2 ≤ line.length && line.head? == some '\x7b' && line.getLast? == some '\x7d'

/-- The id and the payload of several links. -/
def linkedAll : Matcher (List Char × List Char) :=
  literal "links".toList (someBlanks (someShortest beforeColon (blanks (literal [':'] (blanks braced)))))

/-- The links of a payload, each value as the text it shows as. -/
def readPayload (line payload : List Char) : Reading (List Link) :=
  match Json.read payload with
  | .error (.unmet expected rest) => .error (.payload expected payload rest)
  | .error (.tooLong digits) => .error (.tooManyDigits digits)
  | .ok (.object members) => .ok (members.map fun (label, url) => ⟨label, url.shown⟩)
  | .ok _ => .error (.malformedLink (String.ofList line))

/-- Links of a participant: a single one, or a payload of several. -/
def readLink (line : List Char) : Reading Statement :=
  match linked line with
  | some (id, label, url) =>
    (readId line id).map fun id => .links { id, links := [⟨label.map .char, url.map .char⟩] }
  | none =>
    match linkedAll line with
    | none => .error (.malformedLink (String.ofList line))
    | some (id, payload) =>
      match readPayload line payload with
      | .error e => .error e
      | .ok links => (readId line id).map fun id => .links { id, links }

/-! ## Blocks and boxes -/

/-- The opening of a block. What follows the keyword is the colour of a rectangle, and
the label of any other block. -/
def readBlockStart (line : List Char) : Reading Statement :=
  let (word, rest) := splitWord line
  match BlockKind.ofKeyword? (String.ofList word) with
  | none => .error (.unknownWord (String.ofList word))
  | some .rect => .ok (.blockStart { block := { kind := .rect, color := Color.label? rest } })
  | some kind => .ok (.blockStart { block := { kind, label := Color.label? rest } })

/-- The opening of a box. -/
def readBox (line : List Char) : Reading Statement :=
  .ok (.boxStart (Color.splitHeading (splitWord line).2))

/-- The beginning of a further branch. -/
def readBranch (line : List Char) : Reading Statement :=
  let (word, rest) := splitWord line
  .ok (.blockBranch { keyword := String.ofList word, label := Color.label? rest })

/-! ## Messages -/

/-- The source of a message, with a mark before it or an activation after it. -/
def readSource (cs : List Char) : List Char × Bool × Bool :=
  let cs := trim cs
  if cs.head? == some '+' then (cs.drop 1, true, false)
  else if cs.head? == some '-' then (cs.drop 1, false, true)
  else if cs.getLast? == some '+' then (cs.dropLast, true, false)
  else (cs, false, false)

/-- The target of a message, with a mark before or after it. -/
def readTarget (cs : List Char) : List Char × Bool × Bool :=
  let cs := trim cs
  if cs.head? == some '+' then (cs.drop 1, true, false)
  else if cs.head? == some '-' then (cs.drop 1, false, true)
  else if cs.getLast? == some '+' then (cs.dropLast, true, false)
  else if cs.getLast? == some '-' then (cs.dropLast, false, true)
  else (cs, false, false)

/-- An end of a message from its text and its marks. -/
def readEndpoint (line : List Char) : List Char × Bool × Bool → Reading Endpoint
  | (cs, activates, deactivates) => (readId line cs).map fun id => { id, activates, deactivates }

/-- A message. It has a text only if there is a colon. -/
def readMessage (line : List Char) : Reading Statement :=
  let head := messageHead line
  let tail := line.drop head.length
  match Arrow.find? head with
  | none => .error (.noArrow (String.ofList line))
  | some sighting =>
    match readEndpoint line (readSource sighting.before) with
    | .error e => .error e
    | .ok source =>
      (readEndpoint line (readTarget sighting.after)).map fun target =>
        .message { source, target, arrow := sighting.arrow
                   text := if tail.isEmpty then none else some (textAfterColon (tail.drop 1)) }

/-! ## Any line -/

/-- Reads a line as one of the given kind. -/
def Statement.ofKind (kind : LineKind) (line : String) : Reading Statement :=
  let cs := line.toList
  match kind with
  | .autonumber => .ok .autonumber
  | .participant => readDeclaration cs
  | .destroy => readDestroy cs
  | .activation => readActivation cs
  | .noteLeft => readNote cs
  | .noteRight => readNote cs
  | .noteOver => readNote cs
  | .link => readLink cs
  | .blockStart => readBlockStart cs
  | .boxStart => readBox cs
  | .branch => readBranch cs
  | .close => .ok (.blockEnd {})
  | .message => readMessage cs
  | .header => .error (.unrecognized line)
  | .unknown => .error (.unrecognized line)

/-- Reads a line as one of its own kind. -/
def Statement.ofLine (line : String) : Reading Statement :=
  match LineKind.ofLine line with
  | .error e => .error e
  | .ok kind => Statement.ofKind kind line

end Lifeline
