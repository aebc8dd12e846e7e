import Lifeline.Draft.Operation
import Lifeline.Statement.Reader
import Lifeline.Text.Lines
/-!
# Reading a source

A source is read line by line into a draft. The first line that says something
must be the header. Every later problem is reported: the line is left out, or its
text is kept in the label of the block that is open. In strict mode the first
report stops the reading.

Reading also keeps a journal of what it decided, in order.
-/

namespace Lifeline

open Text

/-- Why a source is not read. -/
inductive ReadError where
  | emptySource
  | missingHeader (line : SourceLine)
  | unsupported (name : String)
  | stopped (cause : Diagnostic) (diagnostics : List Diagnostic)
  | line (error : LineError)
  | draft (error : DraftError)
  deriving DecidableEq, Repr

/-- The wording of an error. -/
def ReadError.message : ReadError → String
  | .emptySource => s!"empty input; expected '{headerWord}'"
  | .missingHeader first => s!"line {first.number}: expected '{headerWord}', got {quoted first.text}"
  | .unsupported name => s!"Unsupported diagram type: {name}; expected '{headerWord}'"
  | .stopped cause _ => cause.text
  | .line error => error.message
  | .draft error => error.message

/-- A decision made while a diagram is read or looked at. -/
inductive JournalEntry where
  | mentioned (id : String)
  | reported (diagnostic : Diagnostic)
  | clamped (kind : BlockKind) (order : Int)
  | idle (id : String) (order : Int)
  deriving DecidableEq, Repr

/-- The state of a reading. -/
structure Session where
  draft : Draft := {}
  diagnostics : List Diagnostic := []
  journal : List JournalEntry := []

/-- A session after a step, and why it stops there if it does. -/
abbrev Step := Session × Option ReadError

namespace Session

/-- Reports a problem, which stops a strict reading. -/
def report (s : Session) (strict : Bool) (diagnostic : Diagnostic) : Step :=
  let diagnostics := s.diagnostics ++ [diagnostic]
  ({ s with diagnostics, journal := s.journal ++ [.reported diagnostic] },
    if strict then some (.stopped diagnostic diagnostics) else none)

/-- The ids that one draft has mentioned since another without declaring them. -/
def newMentions (before after : Draft) : List String :=
  ((after.roster.participants.drop before.roster.participants.length).filter fun p =>
    !p.explicit).map Participant.id

/-- Goes on with a draft, noting the participants that it mentions for the first time. -/
def advance (s : Session) (draft : Draft) : Session :=
  { s with draft, journal := s.journal ++ (newMentions s.draft draft).map .mentioned }

/-- Takes in the statement of a line. -/
def feed (s : Session) (strict : Bool) (line : SourceLine) (statement : Statement) : Step :=
  let attempt := s.draft.feed statement (some line.number)
  let s := s.advance attempt.draft
  match attempt.result with
  | .ok _ => (s, none)
  | .error (.frame (.notABranch keyword)) => (s, some (.draft (.frame (.notABranch keyword))))
  | .error (.frame .nothingOpen) =>
    s.report strict ⟨.unbalancedBlock, line.number,
      FrameError.nothingOpen.message ++ "; line skipped", line.text⟩
  | .error (.frame e) =>
    let (draft, extended) := s.draft.extendLabel line.text
    let remedy := if extended then "; kept as label text" else "; line skipped"
    { s with draft }.report strict ⟨.invalidBranchContext, line.number, e.message ++ remedy, line.text⟩
  | .error e => (s, some (.draft e))

/-- Reads one line. -/
def readLine (s : Session) (strict : Bool) (line : SourceLine) : Step :=
  match Statement.ofLine line.text with
  | .ok statement => s.feed strict line statement
  | .error e =>
    if e.isSyntax then
      s.report strict ⟨.unrecognizedStatement, line.number, e.message ++ "; line skipped", line.text⟩
    else (s, some (.line e))

/-- Goes on after a step that did not stop. -/
def andThen (step : Step) (next : Session → Step) : Step :=
  match step with
  | (s, none) => next s
  | (s, some e) => (s, some e)

/-- Reads lines in order. -/
def readLines (s : Session) (strict : Bool) : List SourceLine → Step
  | [] => (s, none)
  | line :: lines => andThen (s.readLine strict line) fun s => s.readLines strict lines

/-- The report on a frame that the source leaves open. -/
def unclosed (frame : Frame Nat) : Diagnostic :=
  { kind := .unbalancedBlock, line := frame.line.getD 0
    message := s!"'{frame.region.keyword}' is never closed with 'end'" }

/-- Reports frames that the source leaves open. -/
def reportOpen (s : Session) (strict : Bool) : List (Frame Nat) → Step
  | [] => (s, none)
  | frame :: frames =>
    andThen (s.report strict (unclosed frame)) fun s => s.reportOpen strict frames

/-- The diagram of a session, and the journal with the blocks that had to be ended. -/
def finish (s : Session) : List JournalEntry × Diagram :=
  (s.journal ++ s.draft.openBlocks.map fun (kind, order) => .clamped kind order,
    { s.draft.build with diagnostics := s.diagnostics })

end Session

/-- What reading a source comes to: its journal, and a diagram or an error. -/
structure Transcript where
  journal : List JournalEntry
  result : Except ReadError Diagram

/-- The kinds of diagrams that a source can hold. -/
inductive DiagramKind where
  | sequence
  deriving DecidableEq, Repr

/-- The kind of diagram with a given name. -/
def DiagramKind.ofName (name : String) : Except ReadError DiagramKind :=
  if name == "sequence" then .ok .sequence else .error (.unsupported name)

/-- The kind of diagram that a source holds, by its first line that says something. -/
def DiagramKind.ofSource (source : String) : Except LineError (Option DiagramKind) :=
  match significantLines source with
  | [] => .ok none
  | line :: _ =>
    (LineKind.ofLine line.text).map fun kind => if kind == .header then some .sequence else none

/-- Reads the lines after the header. -/
def transcribeBody (strict : Bool) (lines : List SourceLine) : Transcript :=
  let step := Session.andThen (({} : Session).readLines strict lines) fun s =>
    s.reportOpen strict s.draft.frames.reverse
  match step with
  | (s, some e) => ⟨s.journal, .error e⟩
  | (s, none) =>
    let (journal, diagram) := s.finish
    ⟨journal, .ok diagram⟩

/-- Reads a source, keeping the journal. -/
def transcribe (source : String) (strict : Bool) : Transcript :=
  match significantLines source with
  | [] => ⟨[], .error .emptySource⟩
  | first :: rest =>
    match LineKind.ofLine first.text with
    | .error e => ⟨[], .error (.line e)⟩
    | .ok .header => transcribeBody strict rest
    | .ok _ => ⟨[], .error (.missingHeader first)⟩

/-- Reads a source. -/
def Diagram.read (source : String) (strict : Bool) : Except ReadError Diagram :=
  (transcribe source strict).result

end Lifeline
