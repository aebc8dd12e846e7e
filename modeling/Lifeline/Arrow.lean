/-!
# Arrows

An arrow is a line style with a head style, and every pair has a literal. A text
is scanned for the leftmost literal, and at one place the longest wins: the scan
order lists a literal before every literal that begins it.
-/

namespace Lifeline

/-- How the line of an arrow is drawn. -/
inductive LineStyle where
  | solid
  | dashed
  deriving DecidableEq, Repr

/-- What the line of an arrow ends in: nothing, an arrowhead, an arrowhead at both
ends, a cross, or an open head. -/
inductive HeadStyle where
  | plain
  | arrow
  | bothArrow
  | cross
  | openHead
  deriving DecidableEq, Repr

/-- An arrow of a message. -/
structure Arrow where
  line : LineStyle
  head : HeadStyle
  deriving DecidableEq, Repr

/-- The dashes of a line. -/
def LineStyle.dashes : LineStyle → List Char
  | .solid => ['-']
  | .dashed => ['-', '-']

/-- What the dashes of an arrow stand between. -/
def HeadStyle.ends : HeadStyle → List Char × List Char
  | .plain => ([], ['>'])
  | .arrow => ([], ['>', '>'])
  | .bothArrow => (['<', '<'], ['>', '>'])
  | .cross => ([], ['x'])
  | .openHead => ([], [')'])

namespace Arrow

/-- The arrow of a message that names none. -/
def standard : Arrow := ⟨.solid, .arrow⟩

/-- The characters of an arrow's literal. -/
def literal (a : Arrow) : List Char := a.head.ends.1 ++ a.line.dashes ++ a.head.ends.2

/-- An arrow's literal. -/
def token (a : Arrow) : String := String.ofList a.literal

/-- The order in which literals are tried at one place. -/
def scanOrder : List Arrow :=
  [.bothArrow, .cross, .openHead, .arrow, .plain].flatMap fun head =>
    [⟨.dashed, head⟩, ⟨.solid, head⟩]

/-- The arrow with the given literal. -/
def ofToken? (token : String) : Option Arrow := scanOrder.find? fun a => a.token == token

/-- Whether the arrow destroys the participant at its head. -/
def isCross (a : Arrow) : Bool := a.head == .cross

/-- The first arrow in scan order whose literal begins the text. -/
def startOf? (cs : List Char) : Option Arrow := scanOrder.find? fun a => a.literal.isPrefixOf cs

/-- An arrow found in a text, and the text on either side of its literal. -/
structure Sighting where
  before : List Char
  arrow : Arrow
  after : List Char
  deriving DecidableEq, Repr

/-- The leftmost arrow of a text. -/
def find? : List Char → Option Sighting
  | [] => none
  | c :: cs =>
    match startOf? (c :: cs) with
    | some a => some ⟨[], a, (c :: cs).drop a.literal.length⟩
    | none => (find? cs).map fun s => { s with before := c :: s.before }

/-- Where the literal begins, counted in characters. -/
def Sighting.start (s : Sighting) : Nat := s.before.length

/-- Where the literal ends. -/
def Sighting.stop (s : Sighting) : Nat := s.start + s.arrow.literal.length

end Arrow

end Lifeline
