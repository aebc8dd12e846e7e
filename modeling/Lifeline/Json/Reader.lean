import Lifeline.Json.Value
import Lifeline.Text.Digit
/-!
# Reading a payload

A reader for JSON notation on the characters of a payload. It stops at the first
fault and says what was expected and where. Besides the standard notation the
words `NaN`, `Infinity` and `-Infinity` are numbers, and a number without
fraction and exponent may have 4300 digits and no more.

Every step consumes a part of the text, so each result carries the proof that
what is left is shorter, and the recursion ends with the text.
-/

namespace Lifeline.Json

open Text (CodePoint Points)

/-- What is wrong with a payload. -/
inductive Expectation where
  | value
  | memberName
  | colon
  | comma
  | nothingMore
  | closingQuote
  | noControl
  | escape
  | codeEscape
  deriving DecidableEq, Repr

/-- The wording of a fault. -/
def Expectation.wording : Expectation → String
  | .value => "Expecting value"
  | .memberName => "Expecting property name enclosed in double quotes"
  | .colon => "Expecting ':' delimiter"
  | .comma => "Expecting ',' delimiter"
  | .nothingMore => "Extra data"
  | .closingQuote => "Unterminated string starting at"
  | .noControl => "Invalid control character at"
  | .escape => "Invalid \\escape"
  | .codeEscape => "Invalid \\uXXXX escape"

/-- A fault, with the text from its place on, or a whole number of too many digits. -/
inductive Fault where
  | unmet (expected : Expectation) (rest : List Char)
  | tooLong (digits : Nat)
  deriving DecidableEq, Repr

/-- A value read from a nonempty part of a text, and the text left over. -/
structure Consumed (α : Type) (cs : List Char) where
  value : α
  rest : List Char
  shorter : rest.length < cs.length

/-- What the reading of a text comes to. -/
abbrev Result (α : Type) (cs : List Char) := Except Fault (Consumed α cs)

/-- A blank of the notation. -/
def isSpace (c : Char) : Bool := c == ' ' || c == '\t' || c == '\n' || c == '\r'

/-- The text without the blanks at its start. -/
def skip (cs : List Char) : List Char := cs.dropWhile isSpace

theorem length_skip_le (cs : List Char) : (skip cs).length ≤ cs.length :=
  (List.dropWhile_sublist isSpace).length_le

/-! ## Strings -/

/-- The value of a hexadecimal digit. -/
def hexValue? (c : Char) : Option Nat :=
  if '0' ≤ c && c ≤ '9' then some (c.toNat - 48)
  else if 'a' ≤ c && c ≤ 'f' then some (c.toNat - 87)
  else if 'A' ≤ c && c ≤ 'F' then some (c.toNat - 55)
  else none

/-- The number that four hexadecimal digits at the start of a text stand for. -/
def fourHex? : List Char → Option Nat
  | a :: b :: c :: d :: _ => do
    let a ← hexValue? a
    let b ← hexValue? b
    let c ← hexValue? c
    let d ← hexValue? d
    return ((a * 16 + b) * 16 + c) * 16 + d
  | _ => none

/-- Whether a number is the first half of a surrogate pair. -/
def isHighHalf (n : Nat) : Bool := 0xD800 ≤ n && n ≤ 0xDBFF

/-- Whether a number is the second half of a surrogate pair. -/
def isLowHalf (n : Nat) : Bool := 0xDC00 ≤ n && n ≤ 0xDFFF

/-- The character of an escape that is a single letter or sign. -/
def plainEscape? (c : Char) : Option Char :=
  if c == '"' || c == '\\' || c == '/' then some c
  else if c == 'b' then some '\x08'
  else if c == 'f' then some '\x0C'
  else if c == 'n' then some '\n'
  else if c == 'r' then some '\r'
  else if c == 't' then some '\t'
  else none

/-- Reads the number after `\u`, which four digits and one character more must
follow, and the second half of a pair if one is written right behind it. -/
def readCode (cs : List Char) : Result CodePoint ('u' :: cs) :=
  if 5 ≤ cs.length then
    match fourHex? cs with
    | none => .error (.unmet .codeEscape ('u' :: cs))
    | some n =>
      let alone : Result CodePoint ('u' :: cs) :=
        .ok ⟨.ofNumber n, cs.drop 4, by simp only [List.length_cons, List.length_drop]; omega⟩
      match cs.drop 4 with
      | '\\' :: 'u' :: second =>
        if isHighHalf n && 5 ≤ second.length then
          match fourHex? second with
          | none => .error (.unmet .codeEscape ('u' :: second))
          | some m =>
            if isLowHalf m then
              .ok ⟨.ofNumber (0x10000 + (n - 0xD800) * 0x400 + (m - 0xDC00)), cs.drop 10,
                by simp only [List.length_cons, List.length_drop]; omega⟩
            else alone
        else alone
      | _ => alone
  else .error (.unmet .codeEscape ('u' :: cs))

/-- Reads the rest of a string after its opening quote. `opening` is the text from
that quote on. -/
def readString (opening : List Char) (cs : List Char) : Result Points cs :=
  match cs with
  | [] => .error (.unmet .closingQuote opening)
  | '"' :: rest => .ok ⟨[], rest, by simp⟩
  | '\\' :: after =>
    match after with
    | [] => .error (.unmet .closingQuote opening)
    | 'u' :: digits =>
      match readCode digits with
      | .error fault => .error fault
      | .ok ⟨c, rest, _⟩ =>
        match readString opening rest with
        | .error fault => .error fault
        | .ok tail => .ok ⟨c :: tail.value, tail.rest, by have := tail.shorter; simp_all; omega⟩
    | e :: rest =>
      match plainEscape? e with
      | none => .error (.unmet .escape ('\\' :: e :: rest))
      | some c =>
        match readString opening rest with
        | .error fault => .error fault
        | .ok tail =>
          .ok ⟨.char c :: tail.value, tail.rest, by have := tail.shorter; simp_all; omega⟩
  | c :: rest =>
    if c.toNat < 0x20 then .error (.unmet .noControl (c :: rest))
    else
      match readString opening rest with
      | .error fault => .error fault
      | .ok tail => .ok ⟨.char c :: tail.value, tail.rest, by have := tail.shorter; simp; omega⟩
termination_by cs.length
decreasing_by all_goals simp_all <;> omega

/-! ## Numbers -/

/-- The digits at the start of a text. -/
def digitsOf (cs : List Char) : List Char := cs.takeWhile Char.isDigit

/-- The number that digits stand for. -/
def digitsValue (digits : List Char) : Nat := digits.foldl (fun n c => 10 * n + (c.toNat - 48)) 0

/-- The digits of a fraction at the start of a text: a point and a digit at least. -/
def fractionOf : List Char → List Char
  | '.' :: cs => digitsOf cs
  | _ => []

/-- The exponent at the start of a text and how many characters it takes: a letter
`e`, a sign or none, and a digit at least. -/
def exponentOf : List Char → Option (Int × Nat)
  | e :: cs =>
    if e == 'e' || e == 'E' then
      let (negative, signs, digits) := match cs with
        | '-' :: ds => (true, 1, digitsOf ds)
        | '+' :: ds => (false, 1, digitsOf ds)
        | ds => (false, 0, digitsOf ds)
      if digits.isEmpty then none
      else
        let n : Int := digitsValue digits
        some (if negative then -n else n, 1 + signs + digits.length)
    else none
  | [] => none

/-- The whole digits at the start of a text: a zero alone, or a digit other than zero
and all that follow it. -/
def wholeDigits : List Char → List Char
  | c :: cs => if c == '0' then ['0'] else digitsOf (c :: cs)
  | [] => []

/-- Reads a number. `start` is the text from its first character on, where a fault
is reported. -/
def readNumber (start : List Char) : Result Value start :=
  let negative := start.head? == some '-'
  let signs := if negative then 1 else 0
  let whole := wholeDigits (start.drop signs)
  if whole.isEmpty then .error (.unmet .value start)
  else
    let fraction := fractionOf (start.drop (signs + whole.length))
    let fractionLength := if fraction.isEmpty then 0 else 1 + fraction.length
    let length := signs + whole.length + fractionLength
    match exponentOf (start.drop length) with
    | some (exponent, n) =>
      finish (length + n) (.real (.ofDecimal negative (digitsValue (whole ++ fraction))
        (exponent - fraction.length)))
    | none =>
      if fraction.isEmpty then
        if Text.maxDigits < whole.length then .error (.tooLong whole.length)
        else
          let n : Int := digitsValue whole
          finish length (.whole (if negative then -n else n))
      else
        finish length (.real (.ofDecimal negative (digitsValue (whole ++ fraction))
          (-fraction.length)))
where
  /-- The value after the given number of characters, of which there is one at least. -/
  finish (length : Nat) (value : Value) : Result Value start :=
    if h : 0 < length ∧ 0 < start.length then
      .ok ⟨value, start.drop length, by simp only [List.length_drop]; omega⟩
    else .error (.unmet .value start)

/-! ## Values -/

/-- The words that are values. -/
def words : List (List Char × Value) := [
  ("null".toList, .null), ("true".toList, .bool true), ("false".toList, .bool false),
  ("NaN".toList, .real .nan), ("Infinity".toList, .real (.infinite false)),
  ("-Infinity".toList, .real (.infinite true))]

/-- Reads a value that is a word or a number. -/
def readScalar (cs : List Char) : Result Value cs :=
  match words.find? fun w => w.1.isPrefixOf cs with
  | some (word, value) =>
    if h : 0 < word.length ∧ 0 < cs.length then
      .ok ⟨value, cs.drop word.length, by simp only [List.length_drop]; omega⟩
    else .error (.unmet .value cs)
  | none => readNumber cs

mutual

/-- Reads a value at the start of a text. -/
def readValue (cs : List Char) : Result Value cs :=
  match cs with
  | [] => .error (.unmet .value [])
  | '"' :: rest =>
    match readString ('"' :: rest) rest with
    | .error fault => .error fault
    | .ok s => .ok ⟨.text s.value, s.rest, by have := s.shorter; simp; omega⟩
  | '\x7b' :: rest =>
    have := length_skip_le rest
    match h : skip rest with
    | '\x7d' :: after => .ok ⟨.object [], after, by simp_all; omega⟩
    | inner =>
      match readMembers inner [] with
      | .error fault => .error fault
      | .ok ms => .ok ⟨.object ms.value, ms.rest, by have := ms.shorter; simp_all; omega⟩
  | '[' :: rest =>
    have := length_skip_le rest
    match h : skip rest with
    | ']' :: after => .ok ⟨.list [], after, by simp_all; omega⟩
    | inner =>
      match readItems inner with
      | .error fault => .error fault
      | .ok vs => .ok ⟨.list vs.value, vs.rest, by have := vs.shorter; simp_all; omega⟩
  | c :: rest => readScalar (c :: rest)
termination_by (cs.length, 0)
decreasing_by all_goals (simp_wf; simp_all; omega)

/-- Reads the members of an object from the first name on, up to the closing brace.
`members` are those read before. -/
def readMembers (cs : List Char) (members : List Member) : Result (List Member) cs :=
  match cs with
  | '"' :: rest =>
    match readString ('"' :: rest) rest with
    | .error fault => .error fault
    | .ok name =>
      have := name.shorter
      have := length_skip_le name.rest
      match h : skip name.rest with
      | ':' :: afterColon =>
        have := length_skip_le afterColon
        match readValue (skip afterColon) with
        | .error fault => .error fault
        | .ok v =>
          have := v.shorter
          have := length_skip_le v.rest
          let members := setMember members name.value v.value
          match h' : skip v.rest with
          | '\x7d' :: after => .ok ⟨members, after, by simp_all; omega⟩
          | ',' :: more =>
            have := length_skip_le more
            match readMembers (skip more) members with
            | .error fault => .error fault
            | .ok ms => .ok ⟨ms.value, ms.rest, by have := ms.shorter; simp_all; omega⟩
          | other => .error (.unmet .comma other)
      | other => .error (.unmet .colon other)
  | other => .error (.unmet .memberName other)
termination_by (cs.length, 1)
decreasing_by all_goals (simp_wf; simp_all; omega)

/-- Reads the items of a list from the first on, up to the closing bracket. -/
def readItems (cs : List Char) : Result (List Value) cs :=
  match readValue cs with
  | .error fault => .error fault
  | .ok v =>
    have := v.shorter
    have := length_skip_le v.rest
    match h : skip v.rest with
    | ']' :: after => .ok ⟨[v.value], after, by simp_all; omega⟩
    | ',' :: more =>
      have := length_skip_le more
      match readItems (skip more) with
      | .error fault => .error fault
      | .ok vs => .ok ⟨v.value :: vs.value, vs.rest, by have := vs.shorter; simp_all; omega⟩
    | other => .error (.unmet .comma other)
termination_by (cs.length, 2)
decreasing_by
  · exact Prod.Lex.right _ (by decide)
  · simp_all only [List.length_cons]; exact Prod.Lex.left _ _ (by omega)

end

/-- Reads a payload whole. -/
def read (cs : List Char) : Except Fault Value :=
  match readValue (skip cs) with
  | .error fault => .error fault
  | .ok v =>
    match skip v.rest with
    | [] => .ok v.value
    | more => .error (.unmet .nothingMore more)

/-- The wording of a fault in a payload, with the line, the column and the offset of
its place. -/
def Expectation.report (expected : Expectation) (payload rest : List Char) : String :=
  let before := payload.take (payload.length - rest.length)
  let line := before.count '\n' + 1
  let column := (before.reverse.takeWhile fun c => c != '\n').length + 1
  s!"{expected.wording}: line {line} column {column} (char {before.length})"

end Lifeline.Json
