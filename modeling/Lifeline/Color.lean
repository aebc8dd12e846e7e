import Lifeline.Text.Letter
import Lifeline.Text.Lines
/-!
# Colours of a box

A box may be given a colour before its label. A colour is a named one in any
case, `#` with three to eight hexadecimal digits, or a call such as
`rgb(1, 2, 3)`, which may hold blanks. A label that itself begins with a colour
is kept whole by writing `transparent` in front of it, which is then no colour.
-/

namespace Lifeline.Color

open Lifeline.Text

/-- The names of colours, in ascending order. -/
def names : List String := [
  "aliceblue", "antiquewhite", "aqua", "aquamarine", "azure", "beige", "bisque", "black",
  "blanchedalmond", "blue", "blueviolet", "brown", "burlywood", "cadetblue", "chartreuse",
  "chocolate", "coral", "cornflowerblue", "cornsilk", "crimson", "cyan", "darkblue", "darkcyan",
  "darkgoldenrod", "darkgray", "darkgreen", "darkgrey", "darkkhaki", "darkmagenta",
  "darkolivegreen", "darkorange", "darkorchid", "darkred", "darksalmon", "darkseagreen",
  "darkslateblue", "darkslategray", "darkslategrey", "darkturquoise", "darkviolet", "deeppink",
  "deepskyblue", "dimgray", "dimgrey", "dodgerblue", "firebrick", "floralwhite", "forestgreen",
  "fuchsia", "gainsboro", "ghostwhite", "gold", "goldenrod", "gray", "green", "greenyellow",
  "grey", "honeydew", "hotpink", "indianred", "indigo", "ivory", "khaki", "lavender",
  "lavenderblush", "lawngreen", "lemonchiffon", "lightblue", "lightcoral", "lightcyan",
  "lightgoldenrodyellow", "lightgray", "lightgreen", "lightgrey", "lightpink", "lightsalmon",
  "lightseagreen", "lightskyblue", "lightslategray", "lightslategrey", "lightsteelblue",
  "lightyellow", "lime", "limegreen", "linen", "magenta", "maroon", "mediumaquamarine",
  "mediumblue", "mediumorchid", "mediumpurple", "mediumseagreen", "mediumslateblue",
  "mediumspringgreen", "mediumturquoise", "mediumvioletred", "midnightblue", "mintcream",
  "mistyrose", "moccasin", "navajowhite", "navy", "oldlace", "olive", "olivedrab", "orange",
  "orangered", "orchid", "palegoldenrod", "palegreen", "paleturquoise", "palevioletred",
  "papayawhip", "peachpuff", "peru", "pink", "plum", "powderblue", "purple", "rebeccapurple",
  "red", "rosybrown", "royalblue", "saddlebrown", "salmon", "sandybrown", "seagreen", "seashell",
  "sienna", "silver", "skyblue", "slateblue", "slategray", "slategrey", "snow", "springgreen",
  "steelblue", "tan", "teal", "thistle", "tomato", "transparent", "turquoise", "violet", "wheat",
  "white", "whitesmoke", "yellow", "yellowgreen"]

/-- The colour that stands for no colour in front of a coloured label. -/
def transparent : String := "transparent"

/-- The openings of a colour call. -/
def calls : List (List Char) :=
  ["rgb(".toList, "rgba(".toList, "hsl(".toList, "hsla(".toList]

/-- A hexadecimal digit of either case. -/
def isHexDigit (c : Char) : Bool :=
  c.isDigit || ('a' ≤ c && c ≤ 'f') || ('A' ≤ c && c ≤ 'F')

/-- A colour call at the start of a text, up to the first closing parenthesis, and
what follows it. -/
def call? (cs : List Char) : Option (List Char × List Char) :=
  match calls.find? fun opening => opening.isPrefixOf cs with
  | none => none
  | some opening =>
    let inner := (cs.drop opening.length).takeWhile fun c => c != ')'
    match (cs.drop opening.length).dropWhile fun c => c != ')' with
    | [] => none
    | c :: rest => some (opening ++ inner ++ [c], rest)

/-- A `#` colour at the start of a text, which a blank or the end must follow, and
what follows it. -/
def hex? : List Char → Option (List Char × List Char)
  | '#' :: cs =>
    let digits := cs.takeWhile isHexDigit
    let rest := cs.dropWhile isHexDigit
    if 3 ≤ digits.length && digits.length ≤ 8 && rest.head?.all isBlank then
      some ('#' :: digits, rest)
    else none
  | _ => none

/-- A colour that is written out, as a call or by its digits, at the start of a
text, and what follows it. -/
def written? (cs : List Char) : Option (List Char × List Char) := (call? cs).or (hex? cs)

/-- The first token of a text: a written colour, which may hold blanks, or else a
word. -/
def leadingToken (cs : List Char) : List Char :=
  match written? cs with
  | some (token, _) => token
  | none => cs.takeWhile fun c => !isBlank c

/-- Whether a token is a colour name in some case. -/
def isName (token : List Char) : Bool := names.contains (String.ofList (foldWord token))

/-- Whether a token, taken whole, is a colour. -/
def isColor (token : List Char) : Bool :=
  match token.head?, token.getLast? with
  | some first, some last =>
    if first == '#' || last == ')' then written? token |>.any fun (_, rest) => rest.isEmpty
    else isName token
  | _, _ => false

/-- Whether a text begins with a colour. -/
def startsWithColor (cs : List Char) : Bool := isColor (leadingToken cs)

/-- The colour and the label that a box is headed by. -/
structure Heading where
  color : Option String := none
  label : Option String := none
  deriving DecidableEq, Repr

/-- A text as a label, which is absent if nothing is left. -/
def label? (cs : List Char) : Option String :=
  if cs.isEmpty then none else some (String.ofList cs)

/-- Splits the text after the word `box` into colour and label. -/
def splitHeading (text : List Char) : Heading :=
  let cs := trim text
  if cs.isEmpty then {}
  else
    let token := leadingToken cs
    if !isColor token then { label := some (String.ofList cs) }
    else
      let rest := trim (cs.drop token.length)
      if foldWord token == transparent.toList && startsWithColor rest then { label := label? rest }
      else { color := some (String.ofList token), label := label? rest }

/-- Whether a label read on its own would lose its first token as a colour. -/
def labelStartsWithColor (label : Option String) : Bool :=
  label.any fun s => startsWithColor (trim s.toList)

end Lifeline.Color
