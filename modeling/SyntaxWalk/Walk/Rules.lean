import SyntaxWalk.Walk.Machine

/-!
# Visitors given by rules

A visitor may be described by a list of rules. A rule has conditions on a hook call and says what to do
when all of them hold; of several rules that apply the first counts, and where none applies the walk goes
on. A condition on a key, an index or a name does not hold where there is none.
-/

set_option autoImplicit false

namespace SyntaxWalk

/-- What a rule does. -/
inductive Reaction where
  /-- Answers with an action. -/
  | answer (action : Action)
  /-- Fails with a message that names the phase and the type. -/
  | fail
  deriving DecidableEq

/-- Conditions on a hook call, and what to do when all of them hold. A condition that is not given
holds. -/
structure Rule where
  phase : Option Phase := none
  nodeType : Option String := none
  key : Option String := none
  index : Option Nat := none
  depth : Option Nat := none
  name : Option String := none
  reaction : Reaction

/-- The text in the member `name` of a node. -/
def Json.name? (node : Json) : Option String :=
  (node.get? "name").bind Json.string?

namespace Rule

/-- Does a condition, if it is given, agree with what is found? -/
def agrees {α : Type} [DecidableEq α] (condition found : Option α) : Bool :=
  condition.isNone || condition = found

/-- Do all conditions of the rule hold for a hook call? -/
def applies (rule : Rule) (phase : Phase) (node : Json) (context : Context) : Bool :=
  agrees rule.phase (some phase) && agrees rule.nodeType (some context.nodeType) &&
    agrees rule.key context.key? && agrees rule.index context.index? &&
    agrees rule.depth (some context.depth) && agrees rule.name node.name?

/-- What the first rule that applies does. -/
def reactionTo (rules : List Rule) (phase : Phase) (node : Json) (context : Context) : Reaction :=
  match rules.find? fun rule => rule.applies phase node context with
  | some rule => rule.reaction
  | none => .answer .proceed

/-- The answer to a hook call. -/
def answerTo (rules : List Rule) (phase : Phase) (node : Json) (context : Context) :
    Except String Action :=
  match reactionTo rules phase node context with
  | .answer action => .ok action
  | .fail => .error (phase.name ++ " " ++ context.nodeType)

end Rule

namespace Visitor

/-- The visitor that follows rules in the given phases, and goes on in the others. It has no state. -/
def ofRules (phases : List Phase) (rules : List Rule) : Visitor Unit String where
  enter node context _ :=
    (if .enter ∈ phases then Rule.answerTo rules .enter node context else .ok .proceed, ())
  leave node context _ :=
    (if .leave ∈ phases then Rule.answerTo rules .leave node context else .ok .proceed, ())

end Visitor

end SyntaxWalk
