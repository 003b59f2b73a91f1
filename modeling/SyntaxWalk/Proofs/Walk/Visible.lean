import Mathlib
import SyntaxWalk.Proofs.Walk.Relaxation

/-!
# What of a tree matters to a walk

Two trees look alike to a walk (`Walker.Alike`) if their tags are equal and every field that the registry
lists for the tag holds alike things in both: nothing that a walk enters, two objects that look alike, or
arrays with objects at the same indices that look alike pair by pair. The order of members, fields that
are not listed, scalars, the items of an array that are no objects and everything below a node of an unknown
type make no difference.

A visitor that looks at the outline of a call only, and not at the nodes (`Visitor.IgnoresNodes`), cannot
tell two such trees apart: the two walks go on in lockstep, with the same outlines of calls, the same
result and the same log (`walk_alike`).
-/

set_option autoImplicit false

namespace SyntaxWalk

universe u v

variable {σ : Type u} {ε : Type v}

/-! ## Trees that look alike -/

/-- Does the field hold neither an object nor an array? -/
def Field.isBare : Field → Bool
  | absent => true
  | scalar => true
  | node _ => false
  | sequence _ => false

mutual

/-- Two values look alike: they have the same tag, and every field that the registry lists for it holds
alike things. -/
inductive Walker.Alike (walker : Walker) : Json → Json → Prop where
  | intro {a b : Json} (htag : a.tag? = b.tag?)
      (hfields : ∀ key ∈ walker.keysOf a, Walker.FieldsAlike walker (a.field key) (b.field key)) :
      Walker.Alike walker a b

/-- Two fields hold alike things. -/
inductive Walker.FieldsAlike (walker : Walker) : Field → Field → Prop where
  /-- Neither holds an object or an array. -/
  | bare {f g : Field} (hf : f.isBare = true) (hg : g.isBare = true) :
      Walker.FieldsAlike walker f g
  /-- Both hold objects that look alike. -/
  | nodes {a b : Json} (h : Walker.Alike walker a b) :
      Walker.FieldsAlike walker (.node a) (.node b)
  /-- Both hold arrays, with objects at the same indices that look alike. -/
  | sequences {items others : List Json}
      (hindices : ∀ i : Nat, (∃ a : Json, items[i]? = some a ∧ a.isNode = true) ↔
        ∃ b : Json, others[i]? = some b ∧ b.isNode = true)
      (hitems : ∀ (i : Nat) (a b : Json), items[i]? = some a → others[i]? = some b →
        a.isNode = true → b.isNode = true → Walker.Alike walker a b) :
      Walker.FieldsAlike walker (.sequence items) (.sequence others)
  /-- The first holds an array without objects, the second neither an object nor an array. -/
  | emptyLeft {items : List Json} {g : Field} (hitems : ∀ item ∈ items, item.isNode = false)
      (hg : g.isBare = true) : Walker.FieldsAlike walker (.sequence items) g
  /-- The second holds an array without objects, the first neither an object nor an array. -/
  | emptyRight {items : List Json} {f : Field} (hitems : ∀ item ∈ items, item.isNode = false)
      (hf : f.isBare = true) : Walker.FieldsAlike walker f (.sequence items)

end

/-! ## Alike children -/

/-- Two children at one edge that look alike. -/
def Walker.ChildrenAlike (walker : Walker) (a b : Edge × Json) : Prop :=
  a.1 = b.1 ∧ walker.Alike a.2 b.2

namespace Field

theorem children_of_isBare {f : Field} (h : f.isBare = true) (key : String) :
    f.children key = [] := by
  cases f with
  | absent => rfl
  | scalar => rfl
  | node value => cases h
  | sequence items => cases h

theorem nodesFrom_of_forall {items : List Json} (h : ∀ item ∈ items, item.isNode = false)
    (key : String) (start : Nat) : nodesFrom key start items = [] := by
  induction items generalizing start with
  | nil => rfl
  | cons item rest ih =>
    obtain ⟨hitem, hrest⟩ := List.forall_mem_cons.1 h
    rw [nodesFrom, hitem]
    exact ih hrest (start + 1)

theorem nodesFrom_of_not_exists {items : List Json}
    (h : ∀ i : Nat, ¬ ∃ item : Json, items[i]? = some item ∧ item.isNode = true)
    (key : String) (start : Nat) : nodesFrom key start items = [] := by
  refine nodesFrom_of_forall (fun item hitem => ?_) key start
  obtain ⟨i, hi⟩ := List.mem_iff_getElem?.1 hitem
  exact Bool.eq_false_iff.2 fun hnode => h i ⟨item, hi, hnode⟩

/-- Sequences with alike objects at the same indices have alike children. -/
theorem forall₂_nodesFrom {walker : Walker} (key : String) :
    ∀ (items others : List Json) (start : Nat),
      (∀ i : Nat, (∃ a : Json, items[i]? = some a ∧ a.isNode = true) ↔
        ∃ b : Json, others[i]? = some b ∧ b.isNode = true) →
      (∀ (i : Nat) (a b : Json), items[i]? = some a → others[i]? = some b → a.isNode = true →
        b.isNode = true → walker.Alike a b) →
      List.Forall₂ walker.ChildrenAlike (nodesFrom key start items)
        (nodesFrom key start others) := by
  intro items
  induction items with
  | nil =>
    intro others start hindices _
    -- where one sequence is over, the other has no objects any more
    have hnone : nodesFrom key start others = [] :=
      nodesFrom_of_not_exists (fun i => mt (hindices i).2 (by simp)) key start
    rw [hnone]
    exact List.Forall₂.nil
  | cons item rest ih =>
    intro others start hindices hitems
    cases others with
    | nil =>
      have hnone : nodesFrom key start (item :: rest) = [] :=
        nodesFrom_of_not_exists (fun i => mt (hindices i).1 (by simp)) key start
      rw [hnone]
      exact List.Forall₂.nil
    | cons other others =>
      have hrest := ih others (start + 1) (fun i => hindices (i + 1))
        fun i => hitems (i + 1)
      have hfirst : item.isNode = true ↔ other.isNode = true := by
        simpa using hindices 0
      rw [nodesFrom, nodesFrom]
      by_cases hnode : item.isNode = true
      · rw [if_pos hnode, if_pos (hfirst.1 hnode)]
        exact List.Forall₂.cons ⟨rfl, hitems 0 item other rfl rfl hnode (hfirst.1 hnode)⟩ hrest
      · rw [if_neg hnode, if_neg fun hother => hnode (hfirst.2 hother)]
        exact hrest

end Field

namespace Walker

variable {walker : Walker}

/-- Alike fields have alike children. -/
theorem FieldsAlike.forall₂_children {f g : Field} (h : walker.FieldsAlike f g) (key : String) :
    List.Forall₂ walker.ChildrenAlike (f.children key) (g.children key) := by
  cases h with
  | bare hf hg =>
    rw [Field.children_of_isBare hf, Field.children_of_isBare hg]
    exact List.Forall₂.nil
  | nodes halike => exact List.Forall₂.cons ⟨rfl, halike⟩ List.Forall₂.nil
  | sequences hindices hitems => exact Field.forall₂_nodesFrom key _ _ 0 hindices hitems
  | emptyLeft hitems hg =>
    rw [Field.children, Field.nodesFrom_of_forall hitems, Field.children_of_isBare hg]
    exact List.Forall₂.nil
  | emptyRight hitems hf =>
    rw [Field.children_of_isBare hf, Field.children, Field.nodesFrom_of_forall hitems]
    exact List.Forall₂.nil

end Walker

/-- Nodes whose given fields hold alike things have alike children in these fields. -/
theorem Json.forall₂_children {walker : Walker} {a b : Json} :
    ∀ keys : List String,
      (∀ key ∈ keys, walker.FieldsAlike (a.field key) (b.field key)) →
      List.Forall₂ walker.ChildrenAlike (a.children keys) (b.children keys) := by
  intro keys
  induction keys with
  | nil => exact fun _ => List.Forall₂.nil
  | cons key rest ih =>
    intro hfields
    obtain ⟨hkey, hrest⟩ := List.forall_mem_cons.1 hfields
    exact List.rel_append (hkey.forall₂_children key) (ih hrest)

namespace Walker

variable {walker : Walker} {a b : Json} {depth : Nat} {place : Place}

theorem examine_congr (h : a.tag? = b.tag?) :
    walker.examine a depth place = walker.examine b depth place := by
  unfold examine
  rw [h]

/-- Where a node passes the examination, a node that looks alike has alike children to be visited. -/
theorem forall₂_visitedChildren {found : Finding} (halike : walker.Alike a b)
    (hfound : walker.examine a depth place = .ok found) (action : Action) :
    List.Forall₂ walker.ChildrenAlike (visitedChildren a found action)
      (visitedChildren b found action) := by
  cases halike with
  | intro htag hfields =>
    unfold visitedChildren
    split
    · exact List.Forall₂.nil
    · rw [keys_of_examine hfound]
      exact Json.forall₂_children _ hfields

/-! ## Values that look alike -/

/-- A field holds things alike to themselves, if the children in it are alike to themselves. -/
theorem FieldsAlike.refl {walker : Walker} {node : Json} {key : String}
    (h : ∀ child ∈ (node.field key).children key, walker.Alike child.2 child.2) :
    walker.FieldsAlike (node.field key) (node.field key) := by
  cases hfield : node.field key with
  | absent => exact .bare rfl rfl
  | scalar => exact .bare rfl rfl
  | node value =>
    rw [hfield] at h
    exact .nodes (h (⟨key, none⟩, value) List.mem_cons_self)
  | sequence items =>
    rw [hfield] at h
    refine .sequences (fun _ => Iff.rfl) fun i a b ha hb hnode _ => ?_
    rw [ha] at hb
    cases hb
    -- the object at an index is the child on the edge with this index
    refine h (⟨key, some i⟩, a) (Field.mem_nodesFrom_iff.2 ⟨i, by rw [Nat.zero_add], ?_⟩)
    rw [ha, Option.filter_some_pos hnode]

theorem Alike.refl (walker : Walker) (node : Json) : walker.Alike node node := by
  induction node using Json.children_induction with
  | step node ih =>
    refine .intro rfl fun key _ => FieldsAlike.refl fun child hchild => ?_
    exact ih [key] child (List.mem_flatMap.2 ⟨key, List.mem_cons_self, hchild⟩)

/-- Values with the same tag and the same listed fields look alike, whatever their other members are and
in whatever order they stand. -/
theorem Alike.of_fields_eq {walker : Walker} {a b : Json} (htag : a.tag? = b.tag?)
    (hfields : ∀ key ∈ walker.keysOf a, a.field key = b.field key) : walker.Alike a b := by
  refine .intro htag fun key hkey => ?_
  rw [← hfields key hkey]
  exact FieldsAlike.refl fun child _ => .refl walker child.2

end Walker

/-! ## Outlines of calls -/

/-- What a call tells beside the nodes: its phase, the tag, the field, the index and the depth. -/
structure Outline where
  phase : Phase
  nodeType : String
  key? : Option String
  index? : Option Nat
  depth : Nat
  deriving DecidableEq

/-- The outline of a call. -/
def Call.outline (call : Call) : Outline :=
  ⟨call.phase, call.context.nodeType, call.context.key?, call.context.index?, call.context.depth⟩

/-- A visitor whose answers and states depend on its state and on the outlines of the calls only. -/
def Visitor.IgnoresNodes (visitor : Visitor σ ε) : Prop :=
  ∀ (phase : Phase) (a b : Json) (c d : Context) (state : σ),
    Call.outline ⟨phase, a, c⟩ = Call.outline ⟨phase, b, d⟩ →
      visitor.hook phase a c state = visitor.hook phase b d state

/-- Two walks that have done the same, as far as outlines tell. -/
structure Progress.Matches (p q : Progress σ) : Prop where
  state : p.state = q.state
  outlines : p.calls.map Call.outline = q.calls.map Call.outline
  logs : p.logs = q.logs
  entered : p.entered = q.entered

/-- Two runs that leave the same behind, as far as outlines tell. -/
structure Run.Matches (r s : Run σ ε) : Prop where
  result : r.result = s.result
  state : r.state = s.state
  outlines : r.calls.map Call.outline = s.calls.map Call.outline
  logs : r.logs = s.logs

namespace Progress.Matches

variable {p q : Progress σ}

theorem log (h : Matches p q) (entry : Log) : Matches (p.log entry) (q.log entry) :=
  ⟨h.state, h.outlines, congrArg (entry :: ·) h.logs, h.entered⟩

theorem noteUnknown (h : Matches p q) (found : Walker.Finding) (place : Place) :
    Matches (p.noteUnknown found place) (q.noteUnknown found place) := by
  unfold Progress.noteUnknown
  split
  · exact h
  · exact h.log _

theorem countNode (h : Matches p q) : Matches p.countNode q.countNode :=
  ⟨h.state, h.outlines, h.logs, congrArg (· + 1) h.entered⟩

/-- Calls with the same outline have the same effect. -/
theorem call (h : Matches p q) {visitor : Visitor σ ε} (hvisitor : visitor.IgnoresNodes)
    {phase : Phase} {a b : Json} {c d : Context}
    (houtline : Call.outline ⟨phase, a, c⟩ = Call.outline ⟨phase, b, d⟩) :
    Matches (p.call visitor phase a c).2 (q.call visitor phase b d).2 := by
  have hhook := hvisitor phase a b c d p.state houtline
  constructor
  · show (visitor.hook phase a c p.state).2 = (visitor.hook phase b d q.state).2
    rw [hhook, h.state]
  · show Call.outline ⟨phase, a, c⟩ :: p.calls.map Call.outline = _
    rw [houtline, h.outlines]
    rfl
  · exact h.logs
  · exact h.entered

theorem finish (h : Matches p q) (result : Except (Failure ε) Outcome) :
    Run.Matches (p.finish result) (q.finish result) := by
  refine ⟨rfl, h.state, ?_, congrArg List.reverse h.logs⟩
  show p.calls.reverse.map Call.outline = q.calls.reverse.map Call.outline
  rw [List.map_reverse, List.map_reverse, h.outlines]

theorem completed (h : Matches p q) :
    Run.Matches (p.completed : Run σ ε) (q.completed : Run σ ε) := by
  rw [Progress.completed, Progress.completed, h.entered]
  exact (h.log _).finish _

theorem stopped (h : Matches p q) (phase : Phase) :
    Run.Matches (p.stopped phase : Run σ ε) (q.stopped phase : Run σ ε) := by
  rw [Progress.stopped, Progress.stopped, h.entered]
  exact (h.log _).finish _

end Progress.Matches

/-! ## Two machines in lockstep -/

/-- Two pieces of work that look alike. -/
inductive Frame.Alike (walker : Walker) : Frame → Frame → Prop where
  | enter {a b : Json} (edge : Option Edge) (h : walker.Alike a b) :
      Frame.Alike walker (.enter a edge) (.enter b edge)
  | leave (a b : Json) (nodeType : String) (edge : Option Edge) :
      Frame.Alike walker (.leave a nodeType edge) (.leave b nodeType edge)

/-- The frames of alike children look alike. -/
theorem forall₂_childFrames {walker : Walker} {children others : List (Edge × Json)}
    (h : List.Forall₂ walker.ChildrenAlike children others) :
    List.Forall₂ (Frame.Alike walker) (childFrames children) (childFrames others) := by
  induction h with
  | nil => exact List.Forall₂.nil
  | @cons child other _ _ hchild hrest ih =>
    rcases child with ⟨edge, a⟩
    rcases other with ⟨_, b⟩
    obtain ⟨rfl, halike⟩ := hchild
    exact List.Forall₂.cons (.enter (some edge) halike) ih

namespace Machine

/-- Two machines with alike work before them, at the same depth and on the same edges, that have done the
same. -/
structure Twins (walker : Walker) (machine twin : Machine σ) : Prop where
  stack : List.Forall₂ (Frame.Alike walker) machine.stack twin.stack
  depth : machine.ancestors.depth = twin.ancestors.depth
  steps : machine.steps = twin.steps
  progress : machine.progress.Matches twin.progress

namespace Twins

variable {walker : Walker} {visitor : Visitor σ ε} {machine twin : Machine σ} {node : Json}
  {nodeType : String} {edge : Option Edge} {rest : List Frame}

/-- What the twin enters looks like what the machine enters. -/
theorem top_enter (h : Twins walker machine twin)
    (hstack : machine.stack = .enter node edge :: rest) :
    ∃ other below, twin.stack = .enter other edge :: below ∧ walker.Alike node other ∧
      List.Forall₂ (Frame.Alike walker) rest below := by
  have hframes := h.stack
  rw [hstack, List.forall₂_cons_left_iff] at hframes
  obtain ⟨frame, below, hframe, hbelow, htwin⟩ := hframes
  cases hframe with
  | enter _ halike => exact ⟨_, below, htwin, halike, hbelow⟩

/-- The twin leaves a node when the machine does. -/
theorem top_leave (h : Twins walker machine twin)
    (hstack : machine.stack = .leave node nodeType edge :: rest) :
    ∃ other below, twin.stack = .leave other nodeType edge :: below ∧
      List.Forall₂ (Frame.Alike walker) rest below := by
  have hframes := h.stack
  rw [hstack, List.forall₂_cons_left_iff] at hframes
  obtain ⟨frame, below, hframe, hbelow, htwin⟩ := hframes
  cases hframe with
  | leave => exact ⟨_, below, htwin, hbelow⟩

theorem examine_eq (h : Twins walker machine twin) {other : Json}
    (halike : walker.Alike node other) :
    walker.examine other twin.ancestors.depth ⟨edge, twin.steps⟩ =
      walker.examine node machine.ancestors.depth ⟨edge, machine.steps⟩ := by
  cases halike with
  | intro htag hfields => rw [h.depth, h.steps, Walker.examine_congr htag]

theorem outline_enter (h : Twins walker machine twin) (node other : Json) (edge : Option Edge)
    (found : Walker.Finding) :
    Call.outline ⟨.enter, node, machine.contextFor edge found⟩ =
      Call.outline ⟨.enter, other, twin.contextFor edge found⟩ := by
  show Outline.mk .enter found.nodeType _ _ machine.ancestors.depth = _
  rw [h.depth]
  rfl

theorem outline_leave (h : Twins walker machine twin) (node other : Json) (nodeType : String)
    (edge : Option Edge) :
    Call.outline ⟨.leave, node, machine.closingContext nodeType edge⟩ =
      Call.outline ⟨.leave, other, twin.closingContext nodeType edge⟩ := by
  show Outline.mk .leave nodeType _ _ (machine.ancestors.depth - 1) = _
  rw [h.depth]
  rfl

theorem entering (h : Twins walker machine twin) (hvisitor : visitor.IgnoresNodes)
    (node other : Json) (edge : Option Edge) (found : Walker.Finding) :
    (machine.entering visitor node edge found).Matches (twin.entering visitor other edge found) := by
  rw [Machine.entering, Machine.entering, ← h.steps]
  exact (h.progress.noteUnknown found _).call hvisitor (h.outline_enter node other edge found)

theorem leaving (h : Twins walker machine twin) (hvisitor : visitor.IgnoresNodes)
    (node other : Json) (nodeType : String) (edge : Option Edge) :
    (machine.leaving visitor node nodeType edge).Matches
      (twin.leaving visitor other nodeType edge) :=
  h.progress.call hvisitor (h.outline_leave node other nodeType edge)

theorem answer_enter (h : Twins walker machine twin) (hvisitor : visitor.IgnoresNodes)
    (node other : Json) (edge : Option Edge) (found : Walker.Finding) :
    visitor.enter other (twin.contextFor edge found) twin.progress.state =
      visitor.enter node (machine.contextFor edge found) machine.progress.state := by
  rw [← h.progress.state]
  exact (hvisitor .enter node other _ _ _ (h.outline_enter node other edge found)).symm

theorem answer_leave (h : Twins walker machine twin) (hvisitor : visitor.IgnoresNodes)
    (node other : Json) (nodeType : String) (edge : Option Edge) :
    visitor.leave other (twin.closingContext nodeType edge) twin.progress.state =
      visitor.leave node (machine.closingContext nodeType edge) machine.progress.state := by
  rw [← h.progress.state]
  exact (hvisitor .leave node other _ _ _ (h.outline_leave node other nodeType edge)).symm

/-- The twin makes every step of the machine. -/
theorem step {next : Machine σ} (h : Twins walker machine twin)
    (hvisitor : visitor.IgnoresNodes) (hsteps : Steps walker visitor machine next) :
    ∃ next', Steps walker visitor twin next' ∧ Twins walker next next' := by
  cases hsteps with
  | @enter node edge rest found action hstack hfound hanswer haction =>
    obtain ⟨other, below, htwin, halike, hbelow⟩ := h.top_enter hstack
    refine ⟨_, .enter htwin ((h.examine_eq halike).trans hfound)
      (by rw [h.answer_enter hvisitor node]; exact hanswer) haction, ?_⟩
    refine ⟨?_, congrArg (· + 1) h.depth, congrArg (edge :: ·) h.steps,
      (h.entering hvisitor node other edge found).countNode⟩
    -- the children lie on the frames that close the two nodes
    rw [stack_descend, stack_descend]
    exact List.rel_append
      (forall₂_childFrames (Walker.forall₂_visitedChildren halike hfound action))
      (List.Forall₂.cons (.leave node other _ edge) hbelow)
  | @leave node nodeType edge rest action hstack hanswer haction =>
    obtain ⟨other, below, htwin, hbelow⟩ := h.top_leave hstack
    refine ⟨_, .leave htwin (by rw [h.answer_leave hvisitor node]; exact hanswer) haction, ?_⟩
    exact ⟨hbelow, congrArg (· - 1) h.depth, congrArg List.tail h.steps,
      h.leaving hvisitor node other nodeType edge⟩

/-- The walk of the twin ends when the walk of the machine does, and in the same way. -/
theorem halt {run : Run σ ε} (h : Twins walker machine twin)
    (hvisitor : visitor.IgnoresNodes) (hhalts : Halts walker visitor machine run) :
    ∃ run', Halts walker visitor twin run' ∧ run.Matches run' := by
  cases hhalts with
  | completed hstack =>
    have hframes := h.stack
    rw [hstack, List.forall₂_nil_left_iff] at hframes
    exact ⟨_, .completed hframes, h.progress.completed⟩
  | fault hstack hfault =>
    obtain ⟨other, below, htwin, halike, -⟩ := h.top_enter hstack
    exact ⟨_, .fault htwin ((h.examine_eq halike).trans hfault), h.progress.finish _⟩
  | @enterFailed node edge rest found error hstack hfound hanswer =>
    obtain ⟨other, below, htwin, halike, -⟩ := h.top_enter hstack
    exact ⟨_, .enterFailed htwin ((h.examine_eq halike).trans hfound)
      (by rw [h.answer_enter hvisitor node]; exact hanswer),
      (h.entering hvisitor node other edge found).finish _⟩
  | @enterStopped node edge rest found hstack hfound hanswer =>
    obtain ⟨other, below, htwin, halike, -⟩ := h.top_enter hstack
    exact ⟨_, .enterStopped htwin ((h.examine_eq halike).trans hfound)
      (by rw [h.answer_enter hvisitor node]; exact hanswer),
      (h.entering hvisitor node other edge found).countNode.stopped _⟩
  | @leaveFailed node nodeType edge rest error hstack hanswer =>
    obtain ⟨other, below, htwin, -⟩ := h.top_leave hstack
    exact ⟨_, .leaveFailed htwin (by rw [h.answer_leave hvisitor node]; exact hanswer),
      (h.leaving hvisitor node other nodeType edge).finish _⟩
  | @leaveStopped node nodeType edge rest hstack hanswer =>
    obtain ⟨other, below, htwin, -⟩ := h.top_leave hstack
    exact ⟨_, .leaveStopped htwin (by rw [h.answer_leave hvisitor node]; exact hanswer),
      (h.leaving hvisitor node other nodeType edge).stopped _⟩

end Twins

theorem twins_start {walker : Walker} {root other : Json} (h : walker.Alike root other)
    (state : σ) : Twins walker (start root state) (start other state) :=
  ⟨List.Forall₂.cons (.enter none h) List.Forall₂.nil, rfl, rfl, rfl, rfl, rfl, rfl⟩

end Machine

namespace Walker

/-- A visitor that ignores the nodes cannot tell trees that look alike apart: the walks of both make calls
with the same outlines in the same order, and end with the same result, log and state. -/
theorem walk_alike (walker : Walker) {visitor : Visitor σ ε} (hvisitor : visitor.IgnoresNodes)
    {root other : Json} (halike : walker.Alike root other)
    (hnull : root.isNull = other.isNull) (state : σ) :
    (walker.walk visitor root state).calls.map Call.outline =
      (walker.walk visitor other state).calls.map Call.outline ∧
    (walker.walk visitor root state).result = (walker.walk visitor other state).result ∧
    (walker.walk visitor root state).logs = (walker.walk visitor other state).logs ∧
    (walker.walk visitor root state).state = (walker.walk visitor other state).state := by
  have hmatches : (walker.walk visitor root state).Matches (walker.walk visitor other state) := by
    unfold walk
    rw [← hnull]
    split
    · exact ⟨rfl, rfl, rfl, rfl⟩
    · exact Machine.run_of_lockstep (fun _ _ _ h => h.step hvisitor) (fun _ _ _ h => h.halt hvisitor)
        _ _ (Machine.twins_start halike state)
  exact ⟨hmatches.outlines, hmatches.result, hmatches.logs, hmatches.state⟩

/-- A block with a hole, a block with a note, a nested array and a node of an unknown type. -/
def annotated : Json :=
  .object [("body", .array [.null,
    .object [("body", .array []), ("note", .bool true), ("type", .string "Block")],
    .array [.object []], .object [("left", .object []), ("type", .string "Mystery")]]),
    ("type", .string "Block")]

/-- The same block in another order, with a scalar in the hole and without what a walk passes over. -/
def condensed : Json :=
  .object [("type", .string "Block"), ("body", .array [.bool true,
    .object [("type", .string "Block"), ("body", .array [])],
    .null, .object [("type", .string "Mystery")]])]

theorem alike_annotated : freeBlocks.Alike annotated condensed := by
  have hinner : freeBlocks.Alike
      (.object [("body", .array []), ("note", .bool true), ("type", .string "Block")])
      (.object [("type", .string "Block"), ("body", .array [])]) := by
    have hkeys : freeBlocks.keysOf (.object [("body", .array []), ("note", .bool true),
      ("type", .string "Block")]) = ["body"] := by decide
    refine .of_fields_eq rfl ?_
    rw [hkeys, List.forall_mem_singleton]
    rfl
  have hunknown : freeBlocks.Alike (.object [("left", .object []), ("type", .string "Mystery")])
      (.object [("type", .string "Mystery")]) := by
    have hkeys : freeBlocks.keysOf (.object [("left", .object []),
      ("type", .string "Mystery")]) = [] := by decide
    refine .of_fields_eq rfl ?_
    rw [hkeys]
    exact nofun
  have hkeys : freeBlocks.keysOf annotated = ["body"] := by decide
  refine .intro rfl ?_
  rw [hkeys, List.forall_mem_singleton]
  refine .sequences ?_ ?_
  -- the holes and the nested array have no objects to compare, nor has what is behind the last item
  · intro i
    rcases i with _ | _ | _ | _ | i <;> simp [Json.isNode]
  · intro i a b ha hb hnode _
    rcases i with _ | _ | _ | _ | i
    · cases ha
      cases hnode
    · cases ha
      cases hb
      exact hinner
    · cases ha
      cases hnode
    · cases ha
      cases hb
      exact hunknown
    · cases ha

/-- What a walk passes over makes no difference to a visitor that adds up depths. -/
theorem walk_alike_annotated :
    freeBlocks.Alike annotated condensed ∧
    (freeBlocks.walk (.observer (ε := Empty) fun _ _ context n => n + context.depth) annotated
      0).calls.map Call.outline =
      (freeBlocks.walk (.observer (ε := Empty) fun _ _ context n => n + context.depth) condensed
        0).calls.map Call.outline := by
  have hvisitor : (Visitor.observer (ε := Empty) fun _ _ context n =>
      n + context.depth).IgnoresNodes := by
    intro phase a b c d state houtline
    have hdepth : c.depth = d.depth := congrArg Outline.depth houtline
    cases phase with
    | enter => simp [Visitor.hook, Visitor.observer, hdepth]
    | leave => simp [Visitor.hook, Visitor.observer, hdepth]
  exact ⟨alike_annotated, (walk_alike freeBlocks hvisitor alike_annotated rfl 0).1⟩

end Walker

end SyntaxWalk
