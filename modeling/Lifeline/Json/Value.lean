import Lifeline.Decimal.Style
import Lifeline.Text.Quoted
/-!
# Link payloads as values

The links of a participant may be given at once as an object in JSON notation.
A value is any of the usual kinds. As a label or an address a value shows as its
text: a string as it stands, anything else in a notation of its own, in which the
strings inside lists and objects are quoted. The strings of a payload are lists of
code points, since an escape can name half of a surrogate pair.
-/

namespace Lifeline.Json

open Text (Points)

/-- A value of a payload. An object keeps its members in order of first mention. -/
inductive Value where
  | null
  | bool (b : Bool)
  | whole (n : Int)
  | real (x : Decimal.Binary64)
  | text (points : Points)
  | list (items : List Value)
  | object (members : List (Points × Value))

/-- A member of an object: a name and a value. -/
abbrev Member := Points × Value

/-- The members with one more: a name mentioned again keeps its place and takes the
new value. -/
def setMember (members : List Member) (name : Points) (value : Value) : List Member :=
  if members.any fun m => m.1 == name then
    members.map fun m => if m.1 == name then (name, value) else m
  else members ++ [(name, value)]

mutual

/-- The notation of a value inside a list or an object. -/
def Value.notated : Value → String
  | .null => "None"
  | .bool b => if b then "True" else "False"
  | .whole n => toString n
  | .real x => Decimal.Style.plain.write x
  | .text points => Text.quotedPoints points
  | .list items => "[" ++ ", ".intercalate (notatedItems items) ++ "]"
  | .object members => "\x7b" ++ ", ".intercalate (notatedMembers members) ++ "\x7d"
termination_by structural v => v

/-- The notations of list items. -/
def notatedItems : List Value → List String
  | [] => []
  | v :: vs => v.notated :: notatedItems vs
termination_by structural vs => vs

/-- The notations of members, each after its quoted name. -/
def notatedMembers : List (Points × Value) → List String
  | [] => []
  | m :: ms => notatedMember m :: notatedMembers ms
termination_by structural ms => ms

/-- The notation of a member. -/
def notatedMember : Points × Value → String
  | (name, v) => Text.quotedPoints name ++ ": " ++ v.notated
termination_by structural m => m

end

/-- The text that a value shows as. -/
def Value.shown : Value → Points
  | .text points => points
  | v => .ofString v.notated

end Lifeline.Json
