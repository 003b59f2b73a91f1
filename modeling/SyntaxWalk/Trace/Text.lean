import SyntaxWalk.Text.Blank
import SyntaxWalk.Text.Lines
import SyntaxWalk.Trace.Basic

/-!
# Reading traces from text

A trace is read line by line. Blank lines are passed over. Every other line, trimmed, names a phase and a
type around the first ` - `; both parts are trimmed again, and a type is a single word without blanks. The
first line that is not of this form is the error, with its number, counted from one over all lines.
-/

set_option autoImplicit false

namespace SyntaxWalk

/-- A line that is no event. -/
structure TraceError where
  /-- The number of the line, counted from one. -/
  line : Nat
  /-- The line without the blanks at its ends. -/
  text : String
  deriving DecidableEq

/-- The wording of the error. -/
def TraceError.message (error : TraceError) : String :=
  "invalid trace line " ++ toString error.line ++ ": `" ++ error.text ++ "`"

/-- What stands between the phase and the type of an event. -/
def Event.separator : List Char :=
  [' ', '-', ' ']

/-- The event that a trimmed line describes. -/
def Event.ofLine? (line : List Char) : Option Event := do
  let (left, right) ← Text.splitAtFirst? separator line
  let phase ← Phase.ofName? (String.ofList (Text.trim left))
  let name := Text.trim right
  if name.isEmpty || name.any Text.isBlank then none
  else some ⟨phase, String.ofList name⟩

namespace Trace

/-- Reads lines of which the first has the given number. -/
def ofLines (number : Nat) : List (List Char) → Except TraceError Trace
  | [] => .ok []
  | line :: rest =>
    let trimmed := Text.trim line
    if trimmed.isEmpty then ofLines (number + 1) rest
    else
      match Event.ofLine? trimmed with
      | none => .error ⟨number, String.ofList trimmed⟩
      | some event =>
        match ofLines (number + 1) rest with
        | .error error => .error error
        | .ok trace => .ok (event :: trace)

/-- The trace that a text describes. -/
def parse (text : String) : Except TraceError Trace :=
  ofLines 1 (Text.lines text.toList)

end Trace

end SyntaxWalk
