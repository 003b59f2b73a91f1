/-!
# Phases of a visit

A walk comes to each node twice: before its children and after them.
-/

set_option autoImplicit false

namespace SyntaxWalk

/-- The two sides of a visit to a node. -/
inductive Phase where
  /-- Before the children. -/
  | enter
  /-- After the children. -/
  | leave
  deriving DecidableEq

/-- The name of a phase. -/
def Phase.name : Phase → String
  | enter => "enter"
  | leave => "leave"

/-- The phase with the given name. -/
def Phase.ofName? : String → Option Phase
  | "enter" => some enter
  | "leave" => some leave
  | _ => none

theorem Phase.ofName?_name (phase : Phase) : ofName? phase.name = some phase := by
  cases phase <;> rfl

end SyntaxWalk
