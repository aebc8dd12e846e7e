/-!
# Kinds of blocks

A block is opened by the keyword of its kind and closed by `end`. Three kinds
may be continued in a further branch, each by a keyword of its own.
-/

namespace Lifeline

/-- The kinds of blocks. -/
inductive BlockKind where
  | loop
  | alt
  | opt
  | par
  | critical
  | breakOut
  | rect
  deriving DecidableEq, Repr

namespace BlockKind

/-- All kinds of blocks. -/
def all : List BlockKind := [.loop, .alt, .opt, .par, .critical, .breakOut, .rect]

/-- The word that opens a block. -/
def keyword : BlockKind → String
  | .loop => "loop"
  | .alt => "alt"
  | .opt => "opt"
  | .par => "par"
  | .critical => "critical"
  | .breakOut => "break"
  | .rect => "rect"

/-- The word that continues a block in a further branch. -/
def branchKeyword? : BlockKind → Option String
  | .alt => some "else"
  | .par => some "and"
  | .critical => some "option"
  | _ => none

/-- The kind that a word opens. -/
def ofKeyword? (word : String) : Option BlockKind := all.find? fun k => k.keyword == word

/-- The kind that a word continues. -/
def ofBranchKeyword? (word : String) : Option BlockKind :=
  all.find? fun k => k.branchKeyword? == some word

theorem ofKeyword?_keyword (k : BlockKind) : ofKeyword? k.keyword = some k := by
  cases k <;> rfl

theorem keyword_of_ofKeyword? {word : String} {k : BlockKind} (h : ofKeyword? word = some k) : k.keyword = word := by
  simpa using List.find?_some h

theorem branchKeyword?_of_ofBranchKeyword? {word : String} {k : BlockKind}
    (h : ofBranchKeyword? word = some k) : k.branchKeyword? = some word := by
  simpa using List.find?_some h

theorem branchKeyword?_injective {k k' : BlockKind} {word : String} (h : k.branchKeyword? = some word)
    (h' : k'.branchKeyword? = some word) : k = k' := by
  rw [← h'] at h
  cases k <;> cases k' <;> first | rfl | simp [branchKeyword?] at h h'

end BlockKind

end Lifeline
