import SyntaxWalk.Walk.Basic

/-!
# The walk as a machine

A walk works through a stack of frames, one frame per step. A frame of the kind `enter` stands for a node
still to be examined and entered; entering it puts a frame of the kind `leave` on the stack and, above it,
the frames of its children, from the last to the first, so that they come off in order
(`pushChildren_eq`). A `leave` frame closes the visit. Beside the stack the machine keeps the
nodes that are open and the edges by which they were reached, so that every hook gets its context and
every fault its path without a search.

The machine needs no limit on the depth of the tree and no fuel: each step makes the pending work smaller
(`stackWork_step_lt`), where the work at a node is counted with all its children, as often as its fields
list them. `Walker.walk` is the walk of a whole tree.
-/

set_option autoImplicit false

namespace SyntaxWalk

universe u v

/-- One piece of pending work. -/
inductive Frame where
  /-- A node to be entered. -/
  | enter (node : Json) (edge : Option Edge)
  /-- A node to be left. -/
  | leave (node : Json) (nodeType : String) (edge : Option Edge)

/-- What a walk has done so far. -/
structure Progress (σ : Type u) where
  /-- The state of the visitor. -/
  state : σ
  /-- The calls made, latest first. -/
  calls : List Call
  /-- The log, latest first. -/
  logs : List Log
  /-- The number of nodes entered. -/
  entered : Nat

namespace Progress

variable {σ : Type u} {ε : Type v}

/-- Before the walk. -/
def start (state : σ) : Progress σ :=
  ⟨state, [], [], 0⟩

/-- One more entry in the log. -/
def log (progress : Progress σ) (entry : Log) : Progress σ :=
  { progress with logs := entry :: progress.logs }

/-- Logs a node of an unknown type that is visited all the same. -/
def noteUnknown (progress : Progress σ) (found : Walker.Finding) (place : Place) : Progress σ :=
  if found.known then progress else progress.log (.unknownType found.nodeType place.path)

/-- Calls a hook of the visitor. -/
def call (progress : Progress σ) (visitor : Visitor σ ε) (phase : Phase) (node : Json)
    (context : Context) : Except ε Action × Progress σ :=
  let (answer, state) := visitor.hook phase node context progress.state
  (answer, { progress with state, calls := ⟨phase, node, context⟩ :: progress.calls })

/-- One more node was entered. -/
def countNode (progress : Progress σ) : Progress σ :=
  { progress with entered := progress.entered + 1 }

/-- What the walk leaves behind when it ends here. -/
def finish (progress : Progress σ) (result : Except (Failure ε) Outcome) : Run σ ε :=
  ⟨result, progress.state, progress.calls.reverse, progress.logs.reverse⟩

/-- The walk has come to its end. -/
def completed (progress : Progress σ) : Run σ ε :=
  (progress.log (.walkCompleted progress.entered)).finish (.ok .completed)

/-- The visitor ended the walk in a hook of this phase. -/
def stopped (progress : Progress σ) (phase : Phase) : Run σ ε :=
  (progress.log (.walkStopped phase progress.entered)).finish (.ok .stopped)

/-- The walk failed. -/
def failed (progress : Progress σ) (failure : Failure ε) : Run σ ε :=
  progress.finish (.error failure)

end Progress

/-- The state of a walk. -/
structure Machine (σ : Type u) where
  /-- The pending work, next piece first. -/
  stack : List Frame
  /-- The open nodes. -/
  ancestors : Ancestry
  /-- The edges by which the open nodes were reached, innermost first. -/
  steps : List (Option Edge)
  /-- What has been done. -/
  progress : Progress σ

/-- The result of one step. -/
inductive Step (σ : Type u) (ε : Type v) where
  /-- There is more to do. -/
  | next (machine : Machine σ)
  /-- The walk has ended. -/
  | halt (run : Run σ ε)

/-- Puts an item of a sequence on a stack if it is an object. -/
def pushItem (key : String) (stack : List Frame) (item : Json × Nat) : List Frame :=
  if item.1.isNode then .enter item.1 (some ⟨key, some item.2⟩) :: stack else stack

/-- Puts the children in a field on a stack. The items of a sequence are put there from the last to the
first, so that the first one comes off first. -/
def pushField (node : Json) (stack : List Frame) (key : String) : List Frame :=
  match node.field key with
  | .absent => stack
  | .scalar => stack
  | .node child => .enter child (some ⟨key, none⟩) :: stack
  | .sequence items => items.zipIdx.reverse.foldl (pushItem key) stack

/-- Puts the children of a node on a stack, the fields from the last to the first. -/
def pushChildren (node : Json) (keys : List String) (stack : List Frame) : List Frame :=
  keys.reverse.foldl (pushField node) stack

/-- The frames of children, in order. -/
def childFrames (children : List (Edge × Json)) : List Frame :=
  children.map fun child => .enter child.2 (some child.1)

/-- The items of a sequence come to lie on a stack in the order of the sequence. -/
theorem foldl_pushItem (key : String) (items : List Json) (start : Nat) (stack : List Frame) :
    (items.zipIdx start).reverse.foldl (pushItem key) stack =
      childFrames (Field.nodesFrom key start items) ++ stack := by
  induction items generalizing start with
  | nil => rfl
  | cons item rest ih =>
    rw [List.zipIdx_cons, List.reverse_cons, List.foldl_append, ih, Field.nodesFrom]
    by_cases hitem : item.isNode
    · simp [pushItem, childFrames, hitem]
    · simp [pushItem, hitem]

theorem pushField_eq (node : Json) (stack : List Frame) (key : String) :
    pushField node stack key = childFrames ((node.field key).children key) ++ stack := by
  unfold pushField
  cases node.field key with
  | absent => rfl
  | scalar => rfl
  | node child => rfl
  | sequence items => exact foldl_pushItem key items 0 stack

/-- The children of a node come to lie on a stack in the order of a walk, although they are put there
from the last to the first. -/
theorem pushChildren_eq (node : Json) (keys : List String) (stack : List Frame) :
    pushChildren node keys stack = childFrames (node.children keys) ++ stack := by
  induction keys with
  | nil => rfl
  | cons key rest ih =>
    have hrest : pushChildren node (key :: rest) stack =
        pushField node (pushChildren node rest stack) key := by
      rw [pushChildren, List.reverse_cons, List.foldl_append]
      rfl
    rw [hrest, ih, pushField_eq]
    simp [childFrames, Json.children]

namespace Machine

variable {σ : Type u} {ε : Type v}

/-- Before the first step. -/
def start (root : Json) (state : σ) : Machine σ :=
  ⟨[.enter root none], .none, [], .start state⟩

/-- The machine after a node was entered: its children are pending unless the visitor skips them. -/
def descend (machine : Machine σ) (progress : Progress σ) (node : Json) (edge : Option Edge)
    (found : Walker.Finding) (action : Action) (rest : List Frame) : Machine σ :=
  let below := .leave node found.nodeType edge :: rest
  { stack := if action = .skip then below else pushChildren node found.keys below
    ancestors := machine.ancestors.push node
    steps := edge :: machine.steps
    progress := progress }

/-- Enters a node. -/
def enterNode (walker : Walker) (visitor : Visitor σ ε) (machine : Machine σ) (node : Json)
    (edge : Option Edge) (rest : List Frame) : Step σ ε :=
  match walker.examine node machine.ancestors.depth ⟨edge, machine.steps⟩ with
  | .error fault => .halt (machine.progress.failed (.fault fault))
  | .ok found =>
    match (machine.progress.noteUnknown found ⟨edge, machine.steps⟩).call visitor .enter node
        ⟨machine.ancestors, edge, found.nodeType⟩ with
    | (.error error, progress) => .halt (progress.failed (.visitor error))
    | (.ok .stop, progress) => .halt (progress.countNode.stopped .enter)
    | (.ok action, progress) =>
      .next (machine.descend progress.countNode node edge found action rest)

/-- Leaves a node. -/
def leaveNode (visitor : Visitor σ ε) (machine : Machine σ) (node : Json) (nodeType : String)
    (edge : Option Edge) (rest : List Frame) : Step σ ε :=
  let ancestors := machine.ancestors.pop
  match machine.progress.call visitor .leave node ⟨ancestors, edge, nodeType⟩ with
  | (.error error, progress) => .halt (progress.failed (.visitor error))
  | (.ok .stop, progress) => .halt (progress.stopped .leave)
  | (.ok _, progress) => .next ⟨rest, ancestors, machine.steps.tail, progress⟩

/-- One step: works off the topmost frame. -/
def step (walker : Walker) (visitor : Visitor σ ε) (machine : Machine σ) : Step σ ε :=
  match machine.stack with
  | [] => .halt machine.progress.completed
  | .enter node edge :: rest => machine.enterNode walker visitor node edge rest
  | .leave node nodeType edge :: rest => machine.leaveNode visitor node nodeType edge rest

end Machine

/-! ## Each step makes the pending work smaller -/

/-- The work at a node: entering it, leaving it, and the work at each of its children, a child counting
as often as the fields of the node list it. -/
def Walker.work (walker : Walker) (node : Json) : Nat :=
  2 + ((walker.children node).attach.map fun child => walker.work child.val.2).foldr (· + ·) 0
termination_by sizeOf node
decreasing_by exact Json.sizeOf_children_lt child.property

theorem Walker.work_eq (walker : Walker) (node : Json) :
    walker.work node =
      2 + ((walker.children node).map fun child => walker.work child.2).foldr (· + ·) 0 := by
  have hmap := @List.attach_map_val _ _ (walker.children node) fun child => walker.work child.2
  rw [Walker.work, hmap]

/-- The work that a frame stands for. -/
def Walker.frameWork (walker : Walker) : Frame → Nat
  | .enter node _ => walker.work node
  | .leave _ _ _ => 1

/-- The work that a stack stands for. -/
def Walker.stackWork (walker : Walker) (stack : List Frame) : Nat :=
  (stack.map walker.frameWork).foldr (· + ·) 0

theorem Walker.stackWork_cons (walker : Walker) (frame : Frame) (below : List Frame) :
    walker.stackWork (frame :: below) = walker.frameWork frame + walker.stackWork below := rfl

theorem Walker.stackWork_append (walker : Walker) (above below : List Frame) :
    walker.stackWork (above ++ below) = walker.stackWork above + walker.stackWork below := by
  induction above with
  | nil => exact (Nat.zero_add _).symm
  | cons frame above ih =>
    rw [List.cons_append, stackWork_cons, stackWork_cons, ih, Nat.add_assoc]

theorem Walker.stackWork_childFrames (walker : Walker) (children : List (Edge × Json)) :
    walker.stackWork (childFrames children) =
      (children.map fun child => walker.work child.2).foldr (· + ·) 0 := by
  rw [stackWork, childFrames, List.map_map]
  rfl

namespace Machine

variable {σ : Type u} {ε : Type v}

/-- The frames that take the place of an entered node stand for less work than the node. -/
theorem stackWork_descend_lt {walker : Walker} {machine : Machine σ} {progress : Progress σ}
    {node : Json} {edge : Option Edge} {found : Walker.Finding} {action : Action}
    {rest : List Frame} (hkeys : found.keys = walker.keysOf node) :
    walker.stackWork (machine.descend progress node edge found action rest).stack <
      walker.stackWork (.enter node edge :: rest) := by
  simp only [descend]
  split
  · simp only [Walker.stackWork_cons, Walker.frameWork]
    rw [Walker.work_eq]
    omega
  · simp only [pushChildren_eq, hkeys, Walker.stackWork_append, Walker.stackWork_cons,
      Walker.frameWork, Walker.stackWork_childFrames]
    rw [Walker.work_eq, Walker.children]
    omega

/-- Each step makes the pending work smaller. -/
theorem stackWork_step_lt {walker : Walker} {visitor : Visitor σ ε} {machine next : Machine σ}
    (h : machine.step walker visitor = .next next) :
    walker.stackWork next.stack < walker.stackWork machine.stack := by
  unfold step at h
  split at h
  · cases h
  · rename_i node edge rest hstack
    simp only [enterNode] at h
    split at h
    · cases h
    · rename_i found hfound
      split at h
      · cases h
      · cases h
      · cases h
        rw [hstack]
        exact stackWork_descend_lt (Walker.keys_of_examine hfound)
  · rename_i node nodeType edge rest hstack
    simp only [leaveNode] at h
    split at h
    · cases h
    · cases h
    · cases h
      rw [hstack, Walker.stackWork_cons]
      exact Nat.lt_add_of_pos_left Nat.one_pos

/-- Steps until the walk has ended. -/
def run (walker : Walker) (visitor : Visitor σ ε) (machine : Machine σ) : Run σ ε :=
  match _h : machine.step walker visitor with
  | .halt run => run
  | .next next => next.run walker visitor
termination_by walker.stackWork machine.stack
decreasing_by exact stackWork_step_lt _h

end Machine

/-- Walks a tree with a visitor. A root that is null is no tree: nothing is visited or logged. -/
def Walker.walk {σ : Type u} {ε : Type v} (walker : Walker) (visitor : Visitor σ ε) (root : Json)
    (state : σ) : Run σ ε :=
  if root.isNull then (Progress.start state).finish (.ok .completed)
  else (Machine.start root state).run walker visitor

end SyntaxWalk
