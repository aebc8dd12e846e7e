import Lifeline.Command.Error
import Lifeline.Text.Digit
/-!
# The words of a command

The words after the name of the command are flags, settings with a value, and at
most one input. A long word takes its value after an equals sign or from the next
word; short letters may be run together, and the first one that takes a value
takes the rest of its word. A lone double dash makes all further words inputs.
Of a setting given twice the last counts.
-/

namespace Lifeline.Command

/-- What can be switched on. -/
inductive Flag where
  | check | strict | summary | verbose | help
  deriving DecidableEq, Repr

/-- Something that a word can name. -/
inductive Switch where
  | flag (flag : Flag)
  | setting (setting : Setting)
  deriving DecidableEq, Repr

/-- The switches by their long names. -/
def Switch.ofLong? : String → Option Switch
  | "--output" => some (.setting .output)
  | "--indent" => some (.setting .indent)
  | "--check" => some (.flag .check)
  | "--strict" => some (.flag .strict)
  | "--summary" => some (.flag .summary)
  | "--verbose" => some (.flag .verbose)
  | "--help" => some (.flag .help)
  | _ => none

/-- The switches by their letters. -/
def Switch.ofLetter? : Char → Option Switch
  | 'o' => some (.setting .output)
  | 'i' => some (.setting .indent)
  | 'v' => some (.flag .verbose)
  | _ => none

/-! ## Words -/

/-- The words of a command, sorted. -/
structure Arguments where
  flags : List Flag := []
  output : Option String := none
  indent : Option String := none
  inputs : List String := []
  deriving DecidableEq, Repr

namespace Arguments

/-- Gives a setting its value. -/
def set (a : Arguments) (setting : Setting) (value : String) : Arguments :=
  match setting with
  | .output => { a with output := some value }
  | .indent => { a with indent := some value }

/-- Switches a flag on. -/
def switchOn (a : Arguments) (flag : Flag) : Arguments := { a with flags := flag :: a.flags }

/-- Reads letters run together. The second part of the answer is a setting that
takes its value from the next word. -/
def readLetters (a : Arguments) : List Char → Except UsageError (Arguments × Option Setting)
  | [] => .ok (a, none)
  | c :: cs =>
    match Switch.ofLetter? c with
    | none => .error (.unknownOption (String.ofList ['-', c]))
    | some (.flag flag) => (a.switchOn flag).readLetters cs
    | some (.setting setting) =>
      if cs.isEmpty then .ok (a, some setting) else .ok (a.set setting (String.ofList cs), none)

/-- Reads a long word. -/
def readLong (a : Arguments) (word : List Char) : Except UsageError (Arguments × Option Setting) :=
  let name := String.ofList (word.takeWhile (· != '='))
  match Switch.ofLong? name, word.dropWhile (· != '=') with
  | none, _ => .error (.unknownOption name)
  | some (.flag flag), [] => .ok (a.switchOn flag, none)
  | some (.flag _), _ => .error (.unexpectedValue name)
  | some (.setting setting), [] => .ok (a, some setting)
  | some (.setting setting), _ :: value => .ok (a.set setting (String.ofList value), none)

/-- Reads one word. -/
def readWord (a : Arguments) (word : String) : Except UsageError (Arguments × Option Setting) :=
  match word.toList with
  | '-' :: '-' :: cs => a.readLong ('-' :: '-' :: cs)
  | '-' :: c :: cs => a.readLetters (c :: cs)
  | _ => .ok ({ a with inputs := a.inputs ++ [word] }, none)

/-- Reads all words, the first of them as the value of a setting that waits for one. -/
def read (a : Arguments) : Option Setting → List String → Except UsageError Arguments
  | none, [] => .ok a
  | some setting, [] => .error (.missingValue setting)
  | some setting, value :: words => (a.set setting value).read none words
  | none, word :: words =>
    if word == "--" then .ok { a with inputs := a.inputs ++ words }
    else
      match a.readWord word with
      | .error e => .error e
      | .ok (a, waiting) => a.read waiting words

end Arguments

/-! ## Options -/

/-- What is asked for: where the source comes from, where the text goes, how it is laid
out, and what is done with it. -/
structure Options where
  input : Option String := none
  output : Option String := none
  indent : Nat := 4
  check : Bool := false
  strict : Bool := false
  summary : Bool := false
  verbose : Bool := false
  deriving DecidableEq, Repr

/-- A request: help, or a run with options. -/
inductive Request where
  | help
  | run (options : Options)
  deriving DecidableEq, Repr

/-- A number of spaces, which is not negative. -/
def readIndent (text : String) : Except UsageError Nat :=
  match Text.readWhole? text.toList with
  | some (.ofNat n) => .ok n
  | _ => .error (.badIndent text)

/-- Whether a path holds a null character. No file has such a path. -/
def hasNull (path : String) : Bool := path.toList.contains '\x00'

/-- The options that sorted words stand for. The indent is looked at first, then the
input, and only then whether there is a word too many. -/
def Arguments.options (a : Arguments) : Except Failure Options :=
  match a.indent.mapM readIndent with
  | .error e => .error (.usage e)
  | .ok indent =>
    if a.inputs.head?.any hasNull then .error .nullCharacter
    else match a.inputs with
      | _ :: word :: _ => .error (.usage (.extraArgument word))
      | inputs =>
        .ok { input := inputs.head?
              output := a.output.filter (· != "")
              indent := indent.getD 4
              check := a.flags.contains .check
              strict := a.flags.contains .strict
              summary := a.flags.contains .summary
              verbose := a.flags.contains .verbose }

/-- The request that the words of a command make. -/
def Request.ofWords (words : List String) : Except Failure Request :=
  match ({} : Arguments).read none words with
  | .error e => .error (.usage e)
  | .ok a => if a.flags.contains .help then .ok .help else a.options.map .run

end Lifeline.Command
