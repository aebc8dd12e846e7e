import Lifeline.Statement.LineKind
import Lifeline.Statement.Writer
import Lifeline.Text.Twofold
/-!
# Why a command breaks off

The words of a command may be refused. A command that was accepted may still come to
no outcome: a line can hold a word that stands for nothing, an indentation can have
no room, a path can hold a null character, and a text can hold what has no encoding.
-/

namespace Lifeline.Command

/-- What takes a value. -/
inductive Setting where
  | output | indent
  deriving DecidableEq, Repr

/-- The long name of a setting. -/
def Setting.name : Setting → String
  | .output => "--output"
  | .indent => "--indent"

/-- Why the words of a command are refused. -/
inductive UsageError where
  | unknownOption (word : String)
  | missingValue (setting : Setting)
  | unexpectedValue (name : String)
  | badIndent (text : String)
  | extraArgument (word : String)
  | missingInput (path : String)
  deriving DecidableEq, Repr

/-- The wording of an error. -/
def UsageError.message : UsageError → String
  | .unknownOption word => s!"no such option: {word}"
  | .missingValue setting => s!"option '{setting.name}' requires an argument"
  | .unexpectedValue name => s!"option '{name}' does not take a value"
  | .badIndent text => s!"'{text}' is not a number of spaces"
  | .extraArgument word => s!"got unexpected extra argument ({word})"
  | .missingInput path => s!"path '{path}' does not exist"

/-- Why a command comes to no outcome. -/
inductive Failure where
  | usage (error : UsageError)
  | line (error : LineError)
  | write (error : WriteError)
  | nullCharacter
  | encoding (fault : Text.EncodingFault)
  deriving DecidableEq, Repr

/-- What is said of a text that cannot be encoded. A half alone is named, several side
by side are counted. -/
def encodingMessage (fault : Text.EncodingFault) : String :=
  let what :=
    if fault.more == 0 then
      s!"character '{String.ofList (Text.escapeCode fault.half.number)}' in position {fault.place}"
    else s!"characters in position {fault.place}-{fault.place + fault.more}"
  "'utf-8' codec can't encode " ++ what ++ ": surrogates not allowed"

/-- The wording of a failure. -/
def Failure.message : Failure → String
  | .usage error => error.message
  | .line error => error.message
  | .write error => error.message
  | .nullCharacter => "embedded null byte"
  | .encoding fault => encodingMessage fault

end Lifeline.Command
