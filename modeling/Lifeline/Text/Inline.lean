import Lifeline.Text.Letter
import Lifeline.Text.Lines
/-!
# The text of a message or a note on its line

A text keeps to one line: a newline in it is written as the mark `<br>`. A text
that would be misread is put between double quotes: one in which the word `end`
stands alone, in any case, or one that already begins and ends with a quote.
-/

namespace Lifeline.Text

/-- The mark for a newline. -/
def breakMark : List Char := ['<', 'b', 'r', '>']

/-- Every newline, with the carriage return before it if there is one, written as
a mark. -/
def markNewlines : List Char → List Char
  | [] => []
  | '\r' :: '\n' :: cs => breakMark ++ markNewlines cs
  | c :: cs => (if c == '\n' then breakMark else [c]) ++ markNewlines cs

/-- The form in which a diagram keeps a text: trimmed, on one line. -/
def normalize (cs : List Char) : List Char := markNewlines (trim cs)

/-- `normalize` on a string. -/
def normalized (s : String) : String := String.ofList (normalize s.toList)

/-! ## Quotes -/

/-- Whether the letters of `end`, in any case, begin the text and no word character
follows them. -/
def endsWordHere : List Char → Bool
  | a :: b :: c :: rest =>
    passesFor 'e' a && passesFor 'n' b && passesFor 'd' c && !(rest.head?.any isWordChar)
  | _ => false

/-- Whether the word `end` stands alone in the text; `inWord` says whether a word
character stands before it. -/
def hasLoneEnd (inWord : Bool) : List Char → Bool
  | [] => false
  | c :: cs => (!inWord && endsWordHere (c :: cs)) || hasLoneEnd (isWordChar c) cs

/-- Whether the text begins and ends with a double quote, two of them. -/
def isQuoted (cs : List Char) : Bool :=
  2 ≤ cs.length && cs.head? == some '"' && cs.getLast? == some '"'

/-- Whether the text would be misread without quotes. -/
def needsQuotes (cs : List Char) : Bool := hasLoneEnd false cs || isQuoted cs

/-- The text as it is written on its line. -/
def escape (cs : List Char) : List Char :=
  let line := markNewlines cs
  if needsQuotes line then '"' :: line ++ ['"'] else line

/-- `escape` on a string. -/
def escaped (s : String) : String := String.ofList (escape s.toList)

/-- The text that a trimmed piece of a line stands for. -/
def unescape (cs : List Char) : List Char :=
  if isQuoted cs then (cs.drop 1).dropLast else cs

/-- `unescape` on a string. -/
def unescaped (s : String) : String := String.ofList (unescape s.toList)

/-! ## Lines of a text -/

/-- What follows a line break mark at the start of the text. A mark may be in any
case, hold blanks after its name and be closed with a slash. -/
def afterBreakMark? : List Char → Option (List Char)
  | '<' :: b :: r :: cs =>
    if passesFor 'b' b && passesFor 'r' r then
      match cs.dropWhile isBlank with
      | '>' :: rest => some rest
      | '/' :: '>' :: rest => some rest
      | _ => none
    else none
  | _ => none

/-- A mark is not empty, so the text behind it is shorter. -/
theorem length_afterBreakMark? {cs rest : List Char} (h : afterBreakMark? cs = some rest) :
    rest.length < cs.length := by
  unfold afterBreakMark? at h
  split at h
  · rename_i b r cs
    have hle : (cs.dropWhile isBlank).length ≤ cs.length :=
      (List.dropWhile_sublist isBlank).length_le
    split at h
    · split at h
      · rename_i heq; simp only [Option.some.injEq] at h; subst h; simp [heq] at hle ⊢; omega
      · rename_i heq; simp only [Option.some.injEq] at h; subst h; simp [heq] at hle ⊢; omega
      · simp at h
    · simp at h
  · simp at h

/-- The pieces of a text between its line break marks. -/
def splitMarks : List Char → List (List Char)
  | [] => [[]]
  | c :: cs =>
    match _h : afterBreakMark? (c :: cs) with
    | some rest => [] :: splitMarks rest
    | none =>
      match splitMarks cs with
      | [] => [[c]]
      | line :: lines => (c :: line) :: lines
termination_by cs => cs.length
decreasing_by
  · exact length_afterBreakMark? _h
  · simp

/-- The lines of a text, which its marks separate. -/
def markedLines (s : String) : List String := (splitMarks s.toList).map String.ofList

end Lifeline.Text
