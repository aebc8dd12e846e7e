/-!
# Blanks and lines

The characters that separate words, and what is left of a text once they are
trimmed from its ends. A source is cut at line breaks, every line is trimmed, and
blank lines and comments are dropped; the number of a line counts all lines from 1.
Everything works on the characters of a text, so that a statement about a line is
a statement about a list.
-/

namespace Lifeline.Text

/-- A blank: a tab, a line or page break, an information separator, or a space
of any width. The zero width space and the byte order mark are no blanks. -/
def isBlank (c : Char) : Bool :=
  let n := c.toNat
  (0x09 ≤ n && n ≤ 0x0D) || (0x1C ≤ n && n ≤ 0x20) || n == 0x85 || n == 0xA0 || n == 0x1680 ||
    (0x2000 ≤ n && n ≤ 0x200A) || n == 0x2028 || n == 0x2029 || n == 0x202F || n == 0x205F ||
    n == 0x3000

/-- The text without its leading blanks. -/
def trimStart (cs : List Char) : List Char := cs.dropWhile isBlank

/-- The text without its trailing blanks. -/
def trimEnd (cs : List Char) : List Char := (cs.reverse.dropWhile isBlank).reverse

/-- The text without blanks at either end. -/
def trim (cs : List Char) : List Char := trimEnd (trimStart cs)

/-- `trim` on a string. -/
def trimmed (s : String) : String := String.ofList (trim s.toList)

/-- The first word of a text, and what follows it without the blanks around it. -/
def splitWord (cs : List Char) : List Char × List Char :=
  let body := trimStart cs
  (body.takeWhile fun c => !isBlank c, trim (body.dropWhile fun c => !isBlank c))

/-! ## Lines -/

/-- A line break: a line, page or paragraph end or one of the three large
information separators. -/
def isLineBreak (c : Char) : Bool :=
  let n := c.toNat
  (0x0A ≤ n && n ≤ 0x0D) || (0x1C ≤ n && n ≤ 0x1E) || n == 0x85 || n == 0x2028 || n == 0x2029

/-- The lines of a text without their breaks. A carriage return and a newline
together are one break, and a break at the very end opens no further line. -/
def splitLines : List Char → List (List Char)
  | [] => []
  | '\r' :: '\n' :: cs => [] :: splitLines cs
  | c :: cs =>
    if isLineBreak c then [] :: splitLines cs
    else match splitLines cs with
      | [] => [[c]]
      | line :: lines => (c :: line) :: lines

/-- A trimmed line of the source and its number. -/
structure SourceLine where
  number : Nat
  text : String
  deriving DecidableEq, Repr

/-- Whether a trimmed line says something: it is not empty and no comment. -/
def isSignificant (line : List Char) : Bool := !line.isEmpty && !(['%', '%'].isPrefixOf line)

/-- The lines that say something, trimmed, in order. -/
def significantLines (source : String) : List SourceLine :=
  ((splitLines source.toList).zipIdx 1).filterMap fun (raw, number) =>
    let line := trim raw
    if isSignificant line then some ⟨number, String.ofList line⟩ else none

/-- The text with every carriage return, alone or before a newline, written as a
newline. -/
def unifyNewlines : List Char → List Char
  | [] => []
  | '\r' :: '\n' :: cs => '\n' :: unifyNewlines cs
  | c :: cs => (if c == '\r' then '\n' else c) :: unifyNewlines cs

end Lifeline.Text
