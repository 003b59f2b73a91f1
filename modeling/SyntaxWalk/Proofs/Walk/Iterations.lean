import Mathlib
import SyntaxWalk.Proofs.Walk.Pairing
import SyntaxWalk.Proofs.Walk.Relaxation

/-!
# The machine at each of its iterations

`Machine.after?` is the machine at the start of an iteration. It follows the steps one by one and does not
rely on a run coming to an end. Two facts about walks are stated of it.

The iterations end (`walk_iterations_end`). The work that is pending at the start is twice the number of paths
on which listed fields lead to a node, a path counting as often as the fields along it are listed
(`work_eq_preorder`), and each iteration takes off a part of it. Neither the limit of the walker nor the
visitor has a say in this number, and a walk that completes without skipping needs all of it.

The stack, the open nodes and the edges to them stay in step (`walk_stack_aligned`): the `leave` frames stand
for the open nodes, one by one, and each node to be entered belongs under the nearest of them. What is taken
off the open nodes when a node is left is therefore this node.
-/

set_option autoImplicit false

namespace SyntaxWalk

universe u v

variable {σ : Type u} {ε : Type v}

/-! ## Iterations -/

/-- The machine with which a step goes on. -/
def Step.next? : Step σ ε → Option (Machine σ)
  | .next machine => some machine
  | .halt _ => none

namespace Machine

/-- The machine after a number of steps, if none of them ends the walk. -/
def after? (walker : Walker) (visitor : Visitor σ ε) (machine : Machine σ) : ℕ → Option (Machine σ)
  | 0 => some machine
  | n + 1 => (machine.after? walker visitor n).bind fun later => (later.step walker visitor).next?

section Iterations

variable {walker : Walker} {visitor : Visitor σ ε} {machine later next : Machine σ} {n : ℕ}

theorem next?_step_eq_some_iff :
    (machine.step walker visitor).next? = some next ↔ Steps walker visitor machine next := by
  constructor
  · intro hnext
    rcases step_cases walker visitor machine with ⟨other, hstep, hsteps⟩ | ⟨run, hstep, -⟩
    · rw [hstep] at hnext
      cases hnext
      exact hsteps
    · rw [hstep] at hnext
      cases hnext
  · intro hsteps
    rw [hsteps.step_eq]
    rfl

theorem after?_succ_eq_some_iff :
    machine.after? walker visitor (n + 1) = some next ↔
      ∃ later, machine.after? walker visitor n = some later ∧ Steps walker visitor later next := by
  rw [after?, Option.bind_eq_some_iff]
  simp only [next?_step_eq_some_iff]

/-- What holds at the start and is kept by every step holds at every iteration. It may speak of the number of
the iteration. -/
theorem after?_of_invariant (inv : ℕ → Machine σ → Prop) (hstart : inv 0 machine)
    (hstep : ∀ n later next, inv n later → Steps walker visitor later next → inv (n + 1) next)
    (h : machine.after? walker visitor n = some later) : inv n later := by
  induction n generalizing later with
  | zero =>
    cases h
    exact hstart
  | succ n ih =>
    obtain ⟨before, hbefore, hsteps⟩ := after?_succ_eq_some_iff.1 h
    apply hstep n before later
    · exact ih hbefore
    · exact hsteps

/-- After some number of iterations there is one that ends the walk, and it leaves behind what the run does. -/
theorem exists_halts (walker : Walker) (visitor : Visitor σ ε) (machine : Machine σ) :
    ∃ n last, machine.after? walker visitor n = some last ∧
      Halts walker visitor last (machine.run walker visitor) := by
  -- the invariant of the run: its machine is one to which the iterations come
  refine @run_of_invariant _ _ walker visitor
    (fun later => ∃ n, machine.after? walker visitor n = some later)
    (fun run => ∃ n last, machine.after? walker visitor n = some last ∧ Halts walker visitor last run)
    ?_ ?_ machine ⟨0, rfl⟩
  · rintro later next ⟨n, hlater⟩ hsteps
    exact ⟨n + 1, after?_succ_eq_some_iff.2 ⟨later, hlater, hsteps⟩⟩
  · rintro last run ⟨n, hlast⟩ hhalts
    exact ⟨n, last, hlast, hhalts⟩

end Iterations

end Machine

/-! ## The number of iterations -/

/-- The visitor never leaves out the children of a node. -/
def Visitor.NeverSkips (visitor : Visitor σ ε) : Prop :=
  ∀ node context state, (visitor.enter node context state).1 ≠ .ok .skip

namespace Walker

/-- The walker with the same registry that visits every node with a tag, at any depth. -/
def unlimited (walker : Walker) : Walker :=
  ⟨walker.registry, .lenient, none⟩

theorem preorder_of_registry {walker other : Walker} (h : walker.registry = other.registry) (node : Json) :
    walker.preorder node = other.preorder node := by
  -- the listing is what a tour enters, and tours depend on the registry alone
  have hpaths : ∀ any : Walker,
      any.preorder node = Stop.pathsIn .enter (any.tour node none .none []) := by
    intro any
    rw [pathsIn_enter_tour]
    simp
  rw [hpaths walker, hpaths other, tour_of_registry h]

/-- Two pieces of work fall to each path of the listing, one to enter its node and one to leave it. -/
theorem work_eq_preorder (walker : Walker) (node : Json) :
    walker.work node = 2 * (walker.preorder node).length := by
  induction node using Json.children_induction with
  | step node ih =>
    -- the list of children is shortened while the node stays, so its members are kept apart
    have hbelow : ∀ children : List (Edge × Json), (∀ child ∈ children, child ∈ walker.children node) →
        (children.map fun child => walker.work child.2).foldr (· + ·) 0 =
          2 * (children.flatMap fun child => (walker.preorder child.2).map (child.1 :: ·)).length := by
      intro children
      induction children with
      | nil => exact fun _ => rfl
      | cons child others ihothers =>
        intro hmem
        obtain ⟨hchild, hothers⟩ := List.forall_mem_cons.1 hmem
        rw [List.map_cons, List.foldr_cons, ihothers hothers, ih _ child hchild, List.flatMap_cons,
          List.length_append, List.length_map]
        omega
    rw [work_eq, preorder_eq, List.length_cons, hbelow _ fun _ hchild => hchild]
    omega

/-- Every frame stands for some work. -/
theorem length_le_stackWork (walker : Walker) (stack : List Frame) :
    stack.length ≤ walker.stackWork stack := by
  induction stack with
  | nil => exact Nat.le_refl 0
  | cons frame below ih =>
    have hframe : 1 ≤ walker.frameWork frame := by
      cases frame with
      | enter node edge =>
        rw [frameWork, work_eq]
        omega
      | leave node nodeType edge => exact Nat.le_refl 1
    rw [List.length_cons, stackWork_cons]
    omega

end Walker

namespace Machine

section Work

variable {walker : Walker} {visitor : Visitor σ ε} {machine later next : Machine σ} {n : ℕ}

/-- A step does one piece of the pending work. What else it takes off is the work at the children that the visitor
skips. -/
theorem Steps.stackWork_eq (h : Steps walker visitor machine next) :
    ∃ skipped, walker.stackWork next.stack + 1 + skipped = walker.stackWork machine.stack ∧
      (visitor.NeverSkips → skipped = 0) := by
  cases h with
  | @enter node edge rest found action hstack hfound hanswer haction =>
    have hnode : walker.frameWork (.enter node edge) =
        2 + walker.stackWork (childFrames (walker.children node)) := by
      rw [Walker.frameWork, Walker.work_eq, Walker.stackWork_childFrames]
    have hleave : walker.frameWork (.leave node found.nodeType edge) = 1 := rfl
    rw [stack_descend, Walker.visitedChildren, hstack]
    -- of the two pieces at the node itself the second is the frame that closes it
    by_cases hskip : action = .skip
    · have hempty : walker.stackWork (childFrames []) = 0 := rfl
      refine ⟨walker.stackWork (childFrames (walker.children node)), ?_, ?_⟩
      · rw [if_pos hskip, Walker.stackWork_append, Walker.stackWork_cons, Walker.stackWork_cons, hempty, hnode,
          hleave]
        omega
      · intro hvisitor
        rw [hskip] at hanswer
        exact absurd hanswer (hvisitor node _ _)
    · refine ⟨0, ?_, fun _ => rfl⟩
      rw [if_neg hskip, Walker.keys_of_examine hfound, ← Walker.children, Walker.stackWork_append,
        Walker.stackWork_cons, Walker.stackWork_cons, hnode, hleave]
      omega
  | @leave node nodeType edge rest action hstack hanswer haction =>
    refine ⟨0, ?_, fun _ => rfl⟩
    rw [hstack, Walker.stackWork_cons, Nat.add_zero]
    exact Nat.add_comm _ _

/-- The iterations made, the work still pending and the work skipped make up the work at the start. -/
theorem after?_stackWork_eq (h : machine.after? walker visitor n = some later) :
    ∃ skipped, n + walker.stackWork later.stack + skipped = walker.stackWork machine.stack ∧
      (visitor.NeverSkips → skipped = 0) := by
  apply after?_of_invariant (fun n later => ∃ skipped,
    n + walker.stackWork later.stack + skipped = walker.stackWork machine.stack ∧
      (visitor.NeverSkips → skipped = 0)) ?_ ?_ h
  · exact ⟨0, by omega, fun _ => rfl⟩
  · rintro n later next ⟨before, hbefore, hnoneBefore⟩ hsteps
    obtain ⟨now, hnow, hnoneNow⟩ := hsteps.stackWork_eq
    refine ⟨before + now, by omega, ?_⟩
    intro hvisitor
    rw [hnoneBefore hvisitor, hnoneNow hvisitor]

end Work

end Machine

/-- Every walk ends. After some number of iterations comes one in which nothing is pending or the walk is ended
by a fault or by the visitor, and what it leaves behind is what the walk leaves behind. The iterations made
and the frames still pending are together at most twice as many as the paths of the tree, each path counted
as often as the fields along it are listed; the limit, the policy and the visitor do not enter into this
number. If the visitor skips nothing and the walk completes, it is the number of iterations. -/
theorem Walker.walk_iterations_end (walker : Walker) (visitor : Visitor σ ε) (root : Json) (state : σ) :
    ∃ n last run, (Machine.start root state).after? walker visitor n = some last ∧
      last.Halts walker visitor run ∧
      (root.isNull = false → walker.walk visitor root state = run) ∧
      n + last.stack.length ≤ 2 * (walker.unlimited.preorder root).length ∧
      (visitor.NeverSkips → run.result = .ok .completed →
        n = 2 * (walker.unlimited.preorder root).length) := by
  obtain ⟨n, last, hlast, hhalts⟩ := Machine.exists_halts walker visitor (Machine.start root state)
  have hpending : walker.stackWork (Machine.start root state).stack =
      2 * (walker.unlimited.preorder root).length := by
    have hregistry : walker.unlimited.registry = walker.registry := rfl
    rw [preorder_of_registry hregistry, ← work_eq_preorder]
    rfl
  obtain ⟨skipped, hwork, hnone⟩ := Machine.after?_stackWork_eq hlast
  refine ⟨n, last, _, hlast, hhalts, ?_, ?_, ?_⟩
  · intro hroot
    rw [walk, hroot]
    rfl
  · -- what was skipped only makes the walk shorter
    have hlength := walker.length_le_stackWork last.stack
    omega
  · intro hvisitor hresult
    -- of the ways to end only one completes the walk, and it finds nothing pending
    have hempty : last.stack = [] := by
      generalize (Machine.start root state).run walker visitor = run at hhalts hresult
      cases hhalts with
      | completed hstack => exact hstack
      | _ => cases hresult
    rw [hempty, hnone hvisitor, hpending] at hwork
    exact hwork

namespace Walker

/-- A statement without children. -/
def emptyStatement : Json :=
  .object [("type", .string "Empty")]

/-- A block with one statement. -/
def singleBlock : Json :=
  .object [("body", .array [emptyStatement]), ("type", .string "Block")]

/-- A walker that looks for the statements of a block twice, and also in its tag and in a field that no block
has. -/
def doubledBlocks : Walker :=
  ⟨⟨.ofList [("Block", ["body", "type", "rest", "body"]), ("Empty", [])]⟩, .strict, none⟩

/-- A block whose statement is listed twice takes six iterations: two for the block and twice two for the
statement. -/
theorem walk_iterations_end_doubledBlocks :
    ∃ last run, (Machine.start singleBlock 0).after? doubledBlocks
        (.observer (ε := Empty) fun _ _ _ n => n + 1) 6 = some last ∧
      last.Halts doubledBlocks (.observer (ε := Empty) fun _ _ _ n => n + 1) run ∧
      run.result = .ok .completed := by
  obtain ⟨n, last, run, hlast, hhalts, hwalk, -, hexact⟩ :=
    walk_iterations_end doubledBlocks (.observer (ε := Empty) fun _ _ _ n => n + 1) singleBlock 0
  have hresult : run.result = .ok .completed := by
    rw [← hwalk rfl]
    cbv
  have hlength : (doubledBlocks.unlimited.preorder singleBlock).length = 3 := by cbv
  have hvisitor : (Visitor.observer (ε := Empty) fun _ _ _ n => n + 1 : Visitor ℕ Empty).NeverSkips := by
    intro node context state hskip
    cases hskip
  have hn : n = 6 := by rw [hexact hvisitor hresult, hlength]
  rw [hn] at hlast
  exact ⟨last, run, hlast, hhalts, hresult⟩

end Walker

/-! ## What the frames stand for -/

namespace Frame

/-- The node of a frame. -/
def node : Frame → Json
  | .enter node _ => node
  | .leave node _ _ => node

/-- The edge by which the node of a frame is reached. -/
def edge : Frame → Option Edge
  | .enter _ edge => edge
  | .leave _ _ edge => edge

theorem eq_leave_of_isLeave {frame : Frame} (h : frame.isLeave = true) :
    ∃ nodeType, frame = .leave frame.node nodeType frame.edge := by
  cases frame with
  | enter node edge => cases h
  | leave node nodeType edge => exact ⟨nodeType, rfl⟩

end Frame

namespace Walker

/-- A node to be entered belongs where it lies: if no frame below it closes a node, it is the root; otherwise it
is an object that the edge finds in the node which the nearest such frame closes, in a field that the registry
lists for this node. -/
def HangsOn (walker : Walker) (root : Json) (below : List Frame) (node : Json) (edge : Option Edge) : Prop :=
  (below.find? Frame.isLeave = none ∧ node = root ∧ edge = none) ∨
    ∃ parent nodeType reached key index, below.find? Frame.isLeave = some (.leave parent nodeType reached) ∧
      edge = some ⟨key, index⟩ ∧ walker.Lists parent key ∧ node.isNode = true ∧
      ((index = none ∧ parent.field key = .node node) ∨
        ∃ items i, index = some i ∧ parent.field key = .sequence items ∧ items[i]? = some node)

namespace Anchored

variable {walker : Walker} {root node : Json} {edge : Option Edge} {stack above below : List Frame}
  {nodes : List Json} {edges : List (Option Edge)}

/-- The frames that close nodes stand for the open nodes and the edges to them. -/
theorem leaves_eq (h : Anchored walker root stack nodes edges) :
    (stack.filter Frame.isLeave).map Frame.node = nodes ∧
      (stack.filter Frame.isLeave).map Frame.edge = edges := by
  induction h with
  | empty => exact ⟨rfl, rfl⟩
  | enter hnode hrest ih => exact ih
  | leave hnode htag hdepth hrest ih => exact ⟨congrArg _ ih.1, congrArg _ ih.2⟩

/-- What lies below some frames of an anchored stack is anchored, at fewer open nodes. -/
theorem of_append (h : Anchored walker root (above ++ below) nodes edges) :
    ∃ outer reached, Anchored walker root below outer reached := by
  induction above generalizing nodes edges with
  | nil => exact ⟨nodes, edges, h⟩
  | cons frame above ih =>
    cases h with
    | enter hnode hrest => exact ih hrest
    | leave hnode htag hdepth hrest => exact ih hrest

/-- A node to be entered belongs under the nearest frame that closes a node. -/
theorem hangsOn (h : Anchored walker root (.enter node edge :: below) nodes edges) :
    walker.HangsOn root below node edge := by
  cases h with
  | enter hnode hrest =>
    have hleaves := hrest.leaves_eq.1
    rw [HangsOn, ← List.head?_filter]
    rcases hnode.eq_root_or_child with ⟨hroot, hedge, habove⟩ |
      ⟨parent, outer, e, habove, hedge, hfield, hfollow⟩
    · rw [habove, List.map_eq_nil_iff] at hleaves
      left
      rw [hleaves]
      exact ⟨rfl, hroot, hedge⟩
    · -- the frame that closes the parent is the first one found
      rw [habove] at hleaves
      obtain ⟨frame, others, hfilter, hframe, -⟩ := List.map_eq_cons_iff.1 hleaves
      have hmem : frame ∈ below.filter Frame.isLeave := by
        rw [hfilter]
        exact List.mem_cons_self
      obtain ⟨nodeType, hleave⟩ := Frame.eq_leave_of_isLeave (List.mem_filter.1 hmem).2
      refine Or.inr ⟨parent, nodeType, frame.edge, e.field, e.index, ?_, hedge, lists_iff.2 hfield,
        Json.isNode_of_follow hfollow, ?_⟩
      · rw [hfilter, List.head?_cons, ← hframe, ← hleave]
      · rcases Json.follow_eq_some_iff.1 hfollow with hsingle | ⟨items, i, hindex, hitems, hitem, -⟩
        · exact Or.inl hsingle
        · exact Or.inr ⟨items, i, hindex, hitems, hitem⟩

end Anchored

end Walker

/-- At the start of every iteration the frames that close nodes are, from the bottom of the stack to its top, those
of the open nodes, each with the edge to it, so there are as many of them as of open nodes and of edges. Every
node to be entered is the root or a child of the node that the nearest such frame below it closes. So when a
node is left, it is the last of the open nodes, and its edge the last of the edges to them. -/
theorem Walker.walk_stack_aligned (walker : Walker) (visitor : Visitor σ ε) (root : Json) (state : σ) (n : ℕ)
    (machine : Machine σ) (h : (Machine.start root state).after? walker visitor n = some machine) :
    ((machine.stack.reverse.filter Frame.isLeave).map Frame.node = machine.ancestors.rootFirst ∧
      (machine.stack.reverse.filter Frame.isLeave).map Frame.edge = machine.steps.reverse ∧
      (machine.stack.filter Frame.isLeave).length = machine.ancestors.rootFirst.length ∧
      (machine.stack.filter Frame.isLeave).length = machine.steps.length) ∧
    (∀ above node edge below, machine.stack = above ++ .enter node edge :: below →
      walker.HangsOn root below node edge) ∧
    (∀ node nodeType edge rest, machine.stack = .leave node nodeType edge :: rest →
      machine.ancestors.rootFirst = machine.ancestors.pop.rootFirst ++ [node] ∧
      machine.steps.reverse = machine.steps.tail.reverse ++ [edge]) := by
  have hanchored : machine.Anchored walker root :=
    Machine.after?_of_invariant (fun _ later => later.Anchored walker root)
      (Machine.anchored_start walker root state) (fun _ _ _ => Machine.anchored_step) h
  obtain ⟨hnodes, hedges⟩ := Anchored.leaves_eq hanchored
  refine ⟨⟨?_, ?_, ?_, ?_⟩, ?_, ?_⟩
  · rw [List.filter_reverse, List.map_reverse, hnodes]
    rfl
  · rw [List.filter_reverse, List.map_reverse, hedges]
  · rw [Ancestry.rootFirst, List.length_reverse, ← hnodes, List.length_map]
  · rw [← hedges, List.length_map]
  · intro above node edge below hstack
    rw [Machine.Anchored, hstack] at hanchored
    obtain ⟨outer, reached, hbelow⟩ := hanchored.of_append
    exact hbelow.hangsOn
  · intro node nodeType edge rest hstack
    rw [hstack] at hnodes hedges
    constructor
    · show machine.ancestors.nearestFirst.reverse = machine.ancestors.nearestFirst.tail.reverse ++ [node]
      rw [← hnodes]
      exact List.reverse_cons
    · rw [← hedges]
      exact List.reverse_cons

namespace Walker

/-- A block in which a statement follows another block. -/
def unevenBlocks : Json :=
  .object [("body", .array [singleBlock, emptyStatement]), ("type", .string "Block")]

/-- While the inner block is open, the statement after it waits below the frame that closes the inner block,
and belongs to the outer one. -/
theorem walk_stack_aligned_unevenBlocks :
    ∃ machine, (Machine.start unevenBlocks 0).after? blocks
        (.observer (ε := Empty) fun _ _ _ n => n + 1) 2 = some machine ∧
      machine.stack = [.enter emptyStatement (some ⟨"body", some 0⟩),
        .leave singleBlock "Block" (some ⟨"body", some 0⟩), .enter emptyStatement (some ⟨"body", some 1⟩),
        .leave unevenBlocks "Block" none] ∧
      machine.ancestors.rootFirst = [unevenBlocks, singleBlock] ∧
      machine.steps.reverse = [none, some ⟨"body", some 0⟩] ∧
      blocks.HangsOn unevenBlocks [.leave unevenBlocks "Block" none] emptyStatement
        (some ⟨"body", some 1⟩) := by
  have hsecond : ((Machine.start unevenBlocks 0).after? blocks
      (.observer (ε := Empty) fun _ _ _ n => n + 1) 2).map Machine.stack =
      some [.enter emptyStatement (some ⟨"body", some 0⟩),
        .leave singleBlock "Block" (some ⟨"body", some 0⟩), .enter emptyStatement (some ⟨"body", some 1⟩),
        .leave unevenBlocks "Block" none] := by cbv
  obtain ⟨machine, hafter, hstack⟩ := Option.map_eq_some_iff.1 hsecond
  obtain ⟨⟨hnodes, hedges, -, -⟩, hhangs, -⟩ := walk_stack_aligned _ _ _ _ _ machine hafter
  rw [hstack] at hnodes hedges
  exact ⟨machine, hafter, hstack, hnodes.symm, hedges.symm, hhangs [_, _] _ _ _ hstack⟩

end Walker

end SyntaxWalk
