import SyntaxWalk.Trace.Basic

/-!
# Traces as JSON

A trace is written as an array with one object for each event, which gives its phase and its type. Two
forms of an event are read: an object, whose other members do not matter, and an array of the phase and
the type. The phase chooses by name.
-/

set_option autoImplicit false

namespace SyntaxWalk

namespace Event

/-- The JSON form of an event. -/
def toJson (event : Event) : Json :=
  .object [("phase", .string event.phase.name), ("type", .string event.nodeType)]

/-- The event of a phase and a type. -/
def ofParts? (phase nodeType : Json) : Option Event := do
  let phase ← Phase.ofName? (← phase.choice?)
  let nodeType ← nodeType.string?
  return ⟨phase, nodeType⟩

/-- The event in a JSON value. -/
def ofJson? : Json → Option Event
  | .object members => do
    ofParts? (← Bindings.get? "phase" members) (← Bindings.get? "type" members)
  | .array [phase, nodeType] => ofParts? phase nodeType
  | _ => none

end Event

namespace Trace

/-- The JSON form of a trace. -/
def toJson (trace : Trace) : Json :=
  .array (trace.map Event.toJson)

/-- The trace in a JSON value. -/
def ofJson? : Json → Option Trace
  | .array items => items.mapM Event.ofJson?
  | _ => none

end Trace

end SyntaxWalk
