import Lifeline.Arrow
import Lifeline.Diagram.Basic
import Lifeline.Json.Reader
import Lifeline.Text.Pattern
import Lifeline.Text.Quoted
/-!
# Kinds of lines

A line is classified by its first word, or else by an arrow in it. The first word
alone does not decide: the line must also hold as much of its form as tells it
from a message. What follows is left to the reader of its kind.
-/

namespace Lifeline

open Text Text.Pattern

/-- The kinds of lines. -/
inductive LineKind where
  | header
  | autonumber
  | participant
  | destroy
  | noteLeft
  | noteRight
  | noteOver
  | activation
  | link
  | blockStart
  | boxStart
  | branch
  | close
  | message
  | unknown
  deriving DecidableEq, Repr

/-- Why a line holds no statement. -/
inductive LineError where
  | unrecognized (line : String)
  | malformedDeclaration (line : String)
  | malformedNote (line : String)
  | malformedLink (line : String)
  | missingId (line : String)
  | invalidId (id : String)
  | noArrow (line : String)
  | payload (expected : Json.Expectation) (payload rest : List Char)
  | tooManyDigits (digits : Nat)
  | unknownWord (word : String)
  deriving DecidableEq, Repr

namespace LineError

/-- The wording of an error. -/
def message : LineError → String
  | .unrecognized line => s!"unrecognized statement: {quoted line}"
  | .malformedDeclaration line => s!"malformed declaration: {quoted line}"
  | .malformedNote line => s!"malformed note: {quoted line}"
  | .malformedLink line => s!"malformed link: {quoted line}"
  | .missingId line => s!"missing participant id in {quoted line}"
  | .invalidId id => s!"invalid participant id {quoted id}"
  | .noArrow line => s!"no arrow in message: {quoted line}"
  | .payload expected whole rest => s!"invalid links JSON: {expected.report whole rest}"
  | .tooManyDigits digits =>
    s!"Exceeds the limit ({maxDigits} digits) for integer string conversion: value has " ++
      s!"{digits} digits; use sys.set_int_max_str_digits() to increase the limit"
  | .unknownWord word => quoted word

/-- Whether the error is about the form of the line, so that the line can be left out
and reading can go on. -/
def isSyntax : LineError → Bool
  | .tooManyDigits _ => false
  | .unknownWord _ => false
  | _ => true

end LineError

/-! ## Words -/

/-- The word that a diagram begins with. -/
def headerWord : String := "sequenceDiagram"

/-- The word that numbers messages. -/
def autonumberWord : String := "autonumber"

/-- The word that closes a block or a box. -/
def endWord : String := "end"

/-- The part of a line before its first colon. -/
def messageHead (line : List Char) : List Char := line.takeWhile fun c => c != ':'

/-- The word for the placement of a note, which `left` and `right` share with a
following `of`. -/
def placementWord {α : Type} (next : List Char → Matcher α) : Matcher α := fun cs =>
  ((caseless "over".toList next cs).or
    (caseless "left".toList (fun word => someBlanks (caseless "of".toList fun _ => next word)) cs)).or
    (caseless "right".toList (fun word => someBlanks (caseless "of".toList fun _ => next word)) cs)

/-- The placement that a word names. A dotless or a dotted capital `I` passes for an
`i` where case is ignored, but a word with one of them names no placement. -/
def placementOf (word : List Char) : Except LineError Placement :=
  let lower := String.ofList (lowerWord word)
  if lower == "over" then .ok .over
  else if lower == "left" then .ok .left
  else if lower == "right" then .ok .right
  else .error (.unknownWord lower)

/-- The placement word of a line that begins like a note on something. -/
def notePlacement? : Matcher (List Char) :=
  caseless "note".toList fun _ => someBlanks (placementWord fun word => someBlanks fun cs =>
    if cs.head?.any fun c => !isBlank c then some word else none)

/-- The kind of a note line by its placement. -/
def LineKind.ofPlacement : Placement → LineKind
  | .left => .noteLeft
  | .right => .noteRight
  | .over => .noteOver

/-- Whether a word declares participants. -/
def declares (word : String) : Bool := (ParticipantKind.ofKeyword? word).isSome

/-- The kind of a line with the given first word and rest, tried in a fixed order. -/
def LineKind.ofWord (line word rest : List Char) : Except LineError LineKind :=
  let keyword := String.ofList word
  let inner := splitWord rest
  if keyword == headerWord && rest.isEmpty then .ok .header
  else if keyword == autonumberWord && rest.isEmpty then .ok .autonumber
  else if declares keyword && !rest.isEmpty then .ok .participant
  else if keyword == "create" && declares (String.ofList inner.1) && !inner.2.isEmpty then
    .ok .participant
  else if keyword == "destroy" && !rest.isEmpty then .ok .destroy
  else if foldWord word == "note".toList then
    match notePlacement? line with
    | none => .ok .unknown
    | some placement => (placementOf placement).map LineKind.ofPlacement
  else if (keyword == "activate" || keyword == "deactivate") && !rest.isEmpty then .ok .activation
  else if (keyword == "link" || keyword == "links") && rest.contains ':' then .ok .link
  else if (BlockKind.ofKeyword? keyword).isSome then .ok .blockStart
  else if keyword == "box" then .ok .boxStart
  else if (BlockKind.ofBranchKeyword? keyword).isSome then .ok .branch
  else if line == endWord.toList then .ok .close
  else if (Arrow.find? (messageHead line)).isSome then .ok .message
  else .ok .unknown

/-- The kind of a line. -/
def LineKind.ofLine (line : String) : Except LineError LineKind :=
  let (word, rest) := splitWord line.toList
  LineKind.ofWord line.toList word rest

end Lifeline
