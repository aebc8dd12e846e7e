import Lifeline.Diagram.Query
/-!
# Activation spans

A participant is active from an activation to the deactivation that closes it, as
brackets match: the latest open activation is closed first. A deactivation of a
participant that is not active is idle. A span that is never closed runs to the
end of the timeline.
-/

namespace Lifeline

/-- An activation or deactivation of a participant at an order of the timeline. -/
structure ActivationEvent where
  order : Int
  id : String
  activates : Bool
  deriving DecidableEq, Repr

/-- The event at an end of a message. An end marked both ways counts as activated. -/
def Endpoint.event? (e : Endpoint) (order : Int) : Option ActivationEvent :=
  if e.activates then some ⟨order, e.id, true⟩
  else if e.deactivates then some ⟨order, e.id, false⟩
  else none

/-- The events of an item, the source of a message before its target. -/
def Statement.events : Statement → List ActivationEvent
  | .message m => (m.source.event? m.order).toList ++ (m.target.event? m.order).toList
  | .directive d =>
    match d.kind with
    | .activate => [⟨d.order, d.id, true⟩]
    | .deactivate => [⟨d.order, d.id, false⟩]
    | _ => []
  | _ => []

/-- The events of a diagram along its timeline. -/
def Diagram.events (d : Diagram) : List ActivationEvent := d.timeline.flatMap Statement.events

/-- A stretch of the timeline in which a participant is active, and how many of its
spans were open when it began. -/
structure Span where
  id : String
  start : Int
  stop : Int
  depth : Nat
  deriving DecidableEq, Repr

/-- Whether an order lies in a span, its ends included. -/
def Span.covers (s : Span) (order : Int) : Bool := s.start ≤ order && order ≤ s.stop

/-- A span as it is found: open until a deactivation closes it. -/
structure FoundSpan where
  id : String
  start : Int
  depth : Nat
  closedAt : Option Int := none
  deriving DecidableEq, Repr

/-- Whether a span of the participant is still open. -/
def FoundSpan.isOpenFor (id : String) (s : FoundSpan) : Bool := s.id == id && s.closedAt.isNone

/-- What a pass over the events has found: spans, latest first, and idle
deactivations, latest first. -/
structure SpanPass where
  spans : List FoundSpan := []
  idle : List (String × Int) := []

/-- Closes the latest open span of a participant. -/
def closeLatest (id : String) (order : Int) : List FoundSpan → List FoundSpan
  | [] => []
  | s :: spans =>
    if s.isOpenFor id then { s with closedAt := some order } :: spans
    else s :: closeLatest id order spans

/-- The pass after one more event. -/
def SpanPass.step (pass : SpanPass) (e : ActivationEvent) : SpanPass :=
  let depth := pass.spans.countP (FoundSpan.isOpenFor e.id)
  if e.activates then { pass with spans := { id := e.id, start := e.order, depth } :: pass.spans }
  else if depth == 0 then { pass with idle := (e.id, e.order) :: pass.idle }
  else { pass with spans := closeLatest e.id e.order pass.spans }

/-- The pass over all events of a diagram. -/
def Diagram.spanPass (d : Diagram) : SpanPass := d.events.foldl SpanPass.step {}

/-- A span with its end, which is that of the timeline if no item with a place closes
it. -/
def FoundSpan.finish (length : Nat) (s : FoundSpan) : Span :=
  let stop : Int := match s.closedAt with
    | some order => if order < 0 then length else order
    | none => length
  { id := s.id, start := s.start, stop, depth := s.depth }

/-- Whether a span comes no later than another: by its start, and then by its depth. -/
def Span.precedes (a b : Span) : Bool := a.start < b.start || (a.start == b.start && a.depth ≤ b.depth)

/-- The activation spans of a diagram, sorted by start and depth. -/
def Diagram.spans (d : Diagram) : List Span :=
  ((d.spanPass.spans.reverse).map (FoundSpan.finish d.timeline.length)).mergeSort Span.precedes

/-- The deactivations that close nothing, in order. -/
def Diagram.idleDeactivations (d : Diagram) : List (String × Int) := d.spanPass.idle.reverse

/-- The participants that are active at an order, ascending, each with the number of
its spans there. -/
def Diagram.activeAt (d : Diagram) (order : Int) : List (String × Nat) :=
  let ids := (d.spans.filter fun s => s.covers order).map Span.id
  (sortedSet ids).map fun id => (id, ids.count id)

end Lifeline
