import Lifeline.Command.Outcome
/-!
# The command

Runs the command on real files and standard input.
-/

namespace Lifeline.Command

/-- What an error of the system says of a file. -/
def FileError.ofSystem : IO.Error → FileError
  | .noFileOrDirectory .. => .absent
  | .permissionDenied .. => .denied
  | .inappropriateType _ 20 _ => .notFolder
  | .inappropriateType _ 21 _ => .isFolder
  | .resourceExhausted _ 28 _ => .noSpace
  | .invalidArgument _ 36 _ => .nameTooLong
  | .inappropriateType _ number reason => .other number.toNat reason
  | e => .other 5 (toString e)

/-- An action on a file, with its error as a value. -/
def attempt {α : Type} (action : IO α) : IO (Except FileError α) := do
  try return .ok (← action)
  catch e => return .error (.ofSystem e)

/-- The files of the system. -/
def systemFiles : FileAccess IO where
  present path := do
    match ← attempt (IO.FS.Handle.mk path .read) with
    | .ok _ => return true
    | .error _ => return false
  read path := attempt (IO.FS.readFile path)
  write path text := attempt (IO.FS.writeFile path text)

/-- All of standard input. -/
def readInput : IO String := do
  (← IO.getStdin).readToEnd

/-- Runs the command and prints what it comes to; the answer is its exit code. -/
def execute (words : List String) : IO UInt32 := do
  match ← run systemFiles readInput words with
  | .error (.usage e) =>
    IO.eprintln ("Error: " ++ e.message)
    return usageExitCode.toUInt32
  | .error e =>
    IO.eprintln ("Error: " ++ e.message)
    return 1
  | .ok outcome =>
    IO.eprint outcome.errors
    IO.print outcome.output
    return outcome.exitCode.toUInt32

end Lifeline.Command

/-- The command. -/
def main (words : List String) : IO UInt32 := Lifeline.Command.execute words
