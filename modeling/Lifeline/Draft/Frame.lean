import Lifeline.Diagram.BlockKind
import Lifeline.Text.Quoted
/-!
# Open blocks and boxes

Blocks and boxes that have been opened and not yet closed lie on one stack. They
are closed last in, first out, and a further branch belongs to the innermost of
them, which must be a block of the branch's kind.
-/

namespace Lifeline

/-- What `end` closes. -/
inductive Region where
  | block (kind : BlockKind)
  | box
  deriving DecidableEq, Repr

/-- The word that opens a region. -/
def Region.keyword : Region → String
  | .block kind => kind.keyword
  | .box => "box"

/-- An open block or box, the line that opened it if it has one, and what the stack
is to remember about it. -/
structure Frame (α : Type) where
  region : Region
  line : Option Int := none
  content : α
  deriving DecidableEq, Repr

/-- Whether a frame is that of a box. -/
def Frame.isBox {α : Type} (f : Frame α) : Bool := f.region == .box

/-- Open blocks and boxes, innermost first. -/
abbrev Frames (α : Type) := List (Frame α)

/-- Why a stack of frames refuses a branch or an end. -/
inductive FrameError where
  | nothingOpen
  | outside (keyword : String) (wanted : BlockKind)
  | misplaced (keyword : String) (wanted : BlockKind) (found : Region)
  | noBranch (found : Option Region)
  | notABranch (keyword : String)
  deriving DecidableEq, Repr

/-- The wording of an error. -/
def FrameError.message : FrameError → String
  | .nothingOpen => "'end' without an open block"
  | .outside keyword wanted =>
    s!"'{keyword}' outside any block; it is only valid inside '{wanted.keyword}'"
  | .misplaced keyword wanted found =>
    s!"'{keyword}' is only valid inside '{wanted.keyword}', not '{found.keyword}'"
  | .noBranch (some found) => s!"cannot add a branch to {found.keyword}"
  | .noBranch none => "cannot add a branch to no block"
  | .notABranch keyword => s!"not a branch keyword: {Text.quoted keyword}"

namespace Frames

variable {α : Type}

/-- The innermost frame. -/
def top? (fs : Frames α) : Option (Frame α) := fs.head?

/-- The innermost frame that is a block. -/
def block? (fs : Frames α) : Option (Frame α) := fs.find? fun f => !f.isBox

/-- The innermost frame that is a box. -/
def box? (fs : Frames α) : Option (Frame α) := fs.find? fun f => f.isBox

/-- The frame that a branch keyword continues: the innermost one, which must be a
block of the keyword's kind. -/
def branch (fs : Frames α) (keyword : String) : Except FrameError (Frame α) :=
  match BlockKind.ofBranchKeyword? keyword with
  | none => .error (.notABranch keyword)
  | some wanted =>
    match fs with
    | [] => .error (.outside keyword wanted)
    | f :: _ =>
      if f.region == .block wanted then .ok f
      else .error (.misplaced keyword wanted f.region)

/-- The keyword that continues the innermost frame. -/
def branchKeyword (fs : Frames α) : Except FrameError String :=
  match fs.top? with
  | none => .error (.noBranch none)
  | some f =>
    match f.region with
    | .box => .error (.noBranch (some .box))
    | .block kind =>
      match kind.branchKeyword? with
      | some keyword => .ok keyword
      | none => .error (.noBranch (some (.block kind)))

/-- The innermost frame and the stack without it. -/
def pop (fs : Frames α) : Except FrameError (Frame α × Frames α) :=
  match fs with
  | [] => .error .nothingOpen
  | f :: rest => .ok (f, rest)

end Frames

end Lifeline
