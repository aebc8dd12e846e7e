import Lifeline.Command.Report
import Lifeline.Text.Lines
import Lifeline.Text.Quoted
/-!
# What a command comes to

A command reads its source from a file or from standard input, and delivers its text
to a file as it is or to standard output as it is shown. It reaches files only through
three operations, so the same command runs on real files and on a disk in memory.
-/

namespace Lifeline.Command

/-- Why a file is not read or written. -/
inductive FileError where
  | absent
  | denied
  | notFolder
  | isFolder
  | noSpace
  | nameTooLong
  | other (number : Nat) (reason : String)
  deriving DecidableEq, Repr

/-- The number of an error. -/
def FileError.number : FileError → Nat
  | .absent => 2
  | .denied => 13
  | .notFolder => 20
  | .isFolder => 21
  | .noSpace => 28
  | .nameTooLong => 36
  | .other number _ => number

/-- What an error says of the file. -/
def FileError.reason : FileError → String
  | .absent => "No such file or directory"
  | .denied => "Permission denied"
  | .notFolder => "Not a directory"
  | .isFolder => "Is a directory"
  | .noSpace => "No space left on device"
  | .nameTooLong => "File name too long"
  | .other _ reason => reason

/-- The wording of an error about the file at a path. Where there is no space, it is the
device that is at fault and not the path. -/
def FileError.message (e : FileError) (path : String) : String :=
  let what := s!"[Errno {e.number}] {e.reason}"
  if e == .noSpace then what else s!"{what}: {Text.quoted path}"

/-- How files are reached: whether there is something at a path, what is written in
a file, and writing a file anew. -/
structure FileAccess (m : Type → Type) where
  present : String → m Bool
  read : String → m (Except FileError String)
  write : String → String → m (Except FileError Unit)

/-- What a command comes to: its exit code and what it prints. -/
structure Outcome where
  exitCode : Nat
  output : String
  errors : String
  deriving DecidableEq, Repr

/-- The exit code of a command that is refused for its words. -/
def usageExitCode : Nat := 2

/-- What is printed when help is asked for. -/
def helpText : String := textOf [
  "Usage: lifeline [OPTIONS] [INPUT]",
  "",
  "  Read a sequence diagram and write it back in canonical form.",
  "",
  "Options:",
  "  -o, --output FILE  write to this file instead of standard output",
  "  -i, --indent N     spaces per nesting level",
  "  --check            exit with 1 if the input is not canonical",
  "  --strict           treat recoverable problems as errors",
  "  --summary          print counts instead of the diagram",
  "  -v, --verbose      log decisions to standard error",
  "  --help             show this message"]

/-- The outcome of something that went wrong. -/
def Outcome.failure (said : List String) : Outcome := ⟨1, "", textOf said⟩

/-- A text as a string, if it can be encoded. -/
def encodable (text : Text.Twofold) : Except Failure String :=
  match Text.encodingFault? 0 text.points with
  | some fault => .error (.encoding fault)
  | none => .ok text.first

variable {m : Type → Type} [Monad m]

/-- Writes a text to a file. The file is begun before the text is encoded. -/
def writeOut (files : FileAccess m) (path : String) (text : Text.Twofold) :
    m (Except Failure (Except FileError Unit)) :=
  if hasNull path then return .error .nullCharacter
  else
    match encodable text with
    | .ok text => return .ok (← files.write path text)
    | .error failure => do
      match ← files.write path "" with
      | .ok _ => return .error failure
      | .error e => return .ok (.error e)

/-- Delivers the text of a report. -/
def deliver (files : FileAccess m) (options : Options) (r : Report) : m (Except Failure Outcome) :=
  let code := if r.passed then 0 else 1
  match r.text, options.output with
  | none, _ => return .ok ⟨code, "", textOf r.said⟩
  | some text, none =>
    return (encodable (text.map Text.shown)).map fun text => ⟨code, text, textOf r.said⟩
  | some text, some path => do
    match ← writeOut files path text with
    | .error failure => return .error failure
    | .ok (.ok _) => return .ok ⟨code, "", textOf r.said⟩
    | .ok (.error e) =>
      let complaint := s!"error: cannot write '{path}': {e.message path}"
      return .ok (.failure (r.said ++ [Text.shown complaint]))

/-- Reports on a source as it was read, with its newlines made uniform. -/
def process (files : FileAccess m) (options : Options) (raw : String) :
    m (Except Failure Outcome) :=
  match report options (String.ofList (Text.unifyNewlines raw.toList)) with
  | .error failure => return .error failure
  | .ok r => deliver files options r

/-- Runs a command with given words. -/
def run (files : FileAccess m) (input : m String) (words : List String) :
    m (Except Failure Outcome) :=
  match Request.ofWords words with
  | .error failure => return .error failure
  | .ok .help => return .ok ⟨0, helpText, ""⟩
  | .ok (.run options) =>
    match options.input with
    | none => do process files options (← input)
    | some path => do
      if !(← files.present path) then return .error (.usage (.missingInput path))
      match ← files.read path with
      | .error e =>
        return .ok (.failure [Text.shown s!"error: cannot read '{path}': {e.message path}"])
      | .ok raw => process files options raw

end Lifeline.Command
