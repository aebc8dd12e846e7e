import Lifeline.Text.Letter
import Lifeline.Text.Lines
/-!
# Matching in a fixed order of attempts

A statement line may be split into its parts in several ways. The matchers here
try the ways in a fixed order and keep the first that lets the rest of the line
match: blanks take as many characters as they can and give them back one at a
time, an identifier takes as few as it can and grows one at a time. Each matcher
is given the matcher of what follows it.
-/

namespace Lifeline.Text.Pattern

open Lifeline.Text

/-- Reads characters from the start of a text, or fails. -/
abbrev Matcher (α : Type) := List Char → Option α

variable {α : Type}

/-- The given characters, exactly. -/
def literal : List Char → Matcher α → Matcher α
  | [], next, cs => next cs
  | _ :: _, _, [] => none
  | p :: ps, next, c :: cs => if c == p then literal ps next cs else none

/-- The given small letters in any case; what follows is told which characters
stood for them. -/
def caseless : List Char → (List Char → Matcher α) → Matcher α
  | [], next, cs => next [] cs
  | _ :: _, _, [] => none
  | p :: ps, next, c :: cs =>
    if passesFor p c then caseless ps (fun word => next (c :: word)) cs else none

/-- Any number of blanks, as many as possible first. -/
def blanks (next : Matcher α) : Matcher α
  | [] => next []
  | c :: cs =>
    if isBlank c then (blanks next cs).orElse fun _ => next (c :: cs) else next (c :: cs)

/-- One blank or more, as many as possible first. -/
def someBlanks (next : Matcher α) : Matcher α
  | [] => none
  | c :: cs => if isBlank c then blanks next cs else none

/-- Any number of characters that satisfy `ok`, as few as possible first,
together with what the rest matched. -/
def shortest (ok : Char → Bool) (next : Matcher α) : Matcher (List Char × α)
  | [] => (next []).map fun a => ([], a)
  | c :: cs =>
    match next (c :: cs) with
    | some a => some ([], a)
    | none => if ok c then (shortest ok next cs).map fun (taken, a) => (c :: taken, a) else none

/-- One character or more that satisfy `ok`, as few as possible first. -/
def someShortest (ok : Char → Bool) (next : Matcher α) : Matcher (List Char × α)
  | [] => none
  | c :: cs =>
    if ok c then (shortest ok next cs).map fun (taken, a) => (c :: taken, a) else none

/-- What is left of the line; a final newline may follow it, and nothing else. -/
def restOfLine : Matcher (List Char)
  | [] => some []
  | ['\n'] => some []
  | c :: cs => if c == '\n' then none else (restOfLine cs).map (c :: ·)

/-- `restOfLine` where at least one character is left. -/
def someRestOfLine (cs : List Char) : Option (List Char) :=
  (restOfLine cs).filter fun line => !line.isEmpty

/-- The end of the line, possibly before a final newline. -/
def endOfLine : Matcher Unit
  | [] => some ()
  | ['\n'] => some ()
  | _ => none

/-- Whether a character may stand inside a line. -/
def inLine (c : Char) : Bool := c != '\n'

end Lifeline.Text.Pattern
