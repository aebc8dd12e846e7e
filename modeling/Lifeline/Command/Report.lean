import Lifeline.Command.Options
import Lifeline.Diagram.Activation
import Lifeline.Diagram.Interaction
import Lifeline.Document.Format
import Lifeline.Text.ControlSequence
/-!
# What a command says

The journal of a reading as log lines, the summary of a diagram, and the report on
a source: what is said about it, whether it passes, and the text that it gives. What
is said besides the log is shown without control sequences; the log keeps them.
-/

namespace Lifeline.Command

/-! ## Log lines -/

/-- How much a journal entry matters. -/
inductive Level where
  | debug | warning
  deriving DecidableEq, Repr

/-- The word for a level. -/
def Level.word : Level → String
  | .debug => "DEBUG"
  | .warning => "WARNING"

/-- A line of the log: its level, the part of the program that speaks, and what it
says. -/
structure LogLine where
  level : Level
  speaker : String
  text : String
  deriving DecidableEq, Repr

/-- A journal entry as a line of the log. -/
def logLine : JournalEntry → LogLine
  | .mentioned id =>
    ⟨.debug, "mermaid_sequence.ir.participants",
      s!"implicitly registering participant {Text.quoted id}"⟩
  | .reported diagnostic => ⟨.warning, "mermaid_sequence.parsers.sequence", diagnostic.text⟩
  | .clamped kind order =>
    ⟨.debug, "mermaid_sequence.ir.assembler",
      s!"clamping open {kind.keyword} block at order {order}"⟩
  | .idle id order =>
    ⟨.debug, "mermaid_sequence.ir.activations",
      s!"ignoring deactivate of inactive participant {id} at order {order}"⟩

/-- A log line as it is printed. The bare text of warnings is all that is printed
unless more is asked for. -/
def LogLine.print (verbose : Bool) (l : LogLine) : Option String :=
  if verbose then some s!"{l.level.word} {l.speaker}: {l.text}"
  else if l.level == .warning then some l.text
  else none

/-- The lines that are printed for a journal. -/
def logLines (verbose : Bool) (journal : List JournalEntry) : List String :=
  journal.filterMap fun entry => (logLine entry).print verbose

/-! ## The summary -/

/-- The lines of the summary of a diagram. -/
def summaryLines (d : Diagram) : List String :=
  let graph : InteractionGraph := .ofDiagram d
  let busiest := if graph.edges.isEmpty then none else graph.busiest
  let isolated := graph.isolated
  [s!"participants: {graph.nodes.length}", s!"messages: {graph.edges.length}",
    s!"notes: {d.notes.length}", s!"blocks: {d.blocks.length}",
    s!"activations: {d.spans.length}"] ++
  (busiest.map fun id => s!"busiest: {id}").toList ++
  (if isolated.isEmpty then [] else ["isolated: " ++ ", ".intercalate isolated])

/-- Lines as a text, each closed by a newline. -/
def textOf (lines : List String) : String := String.join (lines.map (· ++ "\n"))

/-! ## The report -/

/-- A report: what is said on standard error, whether all is well, and the text to
deliver if there is one. -/
structure Report where
  said : List String
  passed : Bool
  text : Option Text.Twofold := none
  deriving DecidableEq, Repr

/-- The report on a source. -/
def report (options : Options) (source : String) : Except Failure Report :=
  let transcript := transcribe source options.strict
  let log := logLines options.verbose transcript.journal
  match transcript.result with
  | .error (.line (.unknownWord word)) => .error (.line (.unknownWord word))
  | .error e => .ok { said := log ++ ["parse error:", e.message].map Text.shown, passed := false }
  | .ok diagram =>
    let warnings := diagram.diagnostics.map fun diagnostic => "warning: " ++ diagnostic.text
    let said := log ++ warnings.map Text.shown
    match diagram.writeTwofold { indent := options.indent } with
    | .error e => .error (.write e)
    | .ok canonical =>
      if options.check then
        let passed := canonical == .ofString source
        let verdict := Text.shown (options.input.getD "<stdin>" ++ ": not canonical")
        .ok { said := if passed then said else said ++ [verdict], passed }
      else if options.summary then
        let idle := diagram.idleDeactivations.map fun (id, order) => JournalEntry.idle id order
        .ok { said := said ++ logLines options.verbose idle, passed := true
              text := some (.ofString (textOf (summaryLines diagram))) }
      else .ok { said, passed := true, text := some canonical }

end Lifeline.Command
