import SyntaxWalk.Walk.Machine

/-!
# Traces

A trace is the list of the events of a walk: the phase of each visit and the type of the node. The tracer
is the visitor that writes a trace; it goes on whatever it sees, and it may be carried through several
walks, whose events then follow one another.
-/

set_option autoImplicit false

namespace SyntaxWalk

/-- One event of a walk. -/
structure Event where
  phase : Phase
  nodeType : String
  deriving DecidableEq

/-- The event as a line of text. -/
def Event.line (event : Event) : String :=
  event.phase.name ++ " - " ++ event.nodeType

/-- The events of a walk, in order. -/
abbrev Trace := List Event

namespace Trace

/-- The text of a trace: one line for each event, without a line end after the last. -/
def render (trace : Trace) : String :=
  "\n".intercalate (trace.map Event.line)

/-- The number of nodes entered. -/
def nodeCount (trace : Trace) : Nat :=
  trace.countP fun event => event.phase = .enter

/-- Do the events close the open nodes, innermost first, and all that they open themselves? -/
def closes (opened : List String) : Trace → Bool
  | [] => opened.isEmpty
  | ⟨.enter, nodeType⟩ :: rest => closes (nodeType :: opened) rest
  | ⟨.leave, nodeType⟩ :: rest =>
    match opened with
    | [] => false
    | innermost :: outer => innermost = nodeType && closes outer rest

/-- Does each event that leaves a node close the node entered last, and is every node closed? -/
def isWellNested (trace : Trace) : Bool :=
  trace.closes []

end Trace

/-! ## Writing traces -/

/-- A trace in the making. -/
structure Tracer where
  /-- The events so far, latest first. -/
  latestFirst : List Event

namespace Tracer

/-- Before the first event. -/
def empty : Tracer :=
  ⟨[]⟩

/-- The trace written so far. -/
def trace (tracer : Tracer) : Trace :=
  tracer.latestFirst.reverse

/-- Writes down an event. -/
def push (tracer : Tracer) (event : Event) : Tracer :=
  ⟨event :: tracer.latestFirst⟩

/-- The hook that writes down an event and goes on. -/
def hook (phase : Phase) (_ : Json) (context : Context) (tracer : Tracer) :
    Except Empty Action × Tracer :=
  (.ok .proceed, tracer.push ⟨phase, context.nodeType⟩)

/-- The visitor that writes a trace. It has no errors of its own. -/
def visitor : Visitor Tracer Empty :=
  ⟨hook .enter, hook .leave⟩

/-- A failure of a walk whose visitor has no errors is a fault of the tree. -/
def faultOf : Failure Empty → Fault
  | .fault fault => fault
  | .visitor error => nomatch error

/-- Walks a tree and writes its events after those written before. -/
def record (tracer : Tracer) (walker : Walker) (root : Json) : Run Tracer Empty :=
  walker.walk visitor root tracer

@[simp] theorem trace_push (tracer : Tracer) (event : Event) :
    (tracer.push event).trace = tracer.trace ++ [event] := by
  rw [trace, push, List.reverse_cons]
  rfl

end Tracer

namespace Trace

/-- The trace of a tree, or the fault that ended the walk. -/
def ofTree (walker : Walker) (root : Json) : Except Fault Trace :=
  let run := Tracer.empty.record walker root
  match run.result with
  | .ok _ => .ok run.state.trace
  | .error failure => .error (Tracer.faultOf failure)

end Trace

end SyntaxWalk
