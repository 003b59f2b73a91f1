import Mathlib
import SyntaxWalk.Proofs.Walk.Completeness
import SyntaxWalk.Proofs.Walk.Cutting

/-!
# The log of a walk

A walk warns of a node before its hook is called, counts it after the hook has answered, and says at its end how
many nodes it has entered. Between these points the hook may stop the walk or fail. What the log says can
nevertheless be read off the calls that were made: a warning for each node that was entered under a tag without an
entry, in the order of the calls, with the path of the node, and then one closing entry or none (`walk_logs`).

The path in a warning comes from the edges that the machine keeps beside its stack. They are the edges in the
contexts of the open calls (`Machine.Accounted.steps`), so the path is the one that the calls themselves give.
-/

set_option autoImplicit false

namespace SyntaxWalk

universe u v

variable {σ : Type u} {ε : Type v}

@[simp] theorem Progress.entered_noteUnknown (progress : Progress σ) (found : Walker.Finding) (place : Place) :
    (progress.noteUnknown found place).entered = progress.entered := by
  rw [noteUnknown]
  split
  · rfl
  · rfl

/-! ## The wording of the entries -/

namespace Log

theorem line_unknownType (tag : String) (path : Path) : (unknownType tag path).line =
    "WARN Unknown node type `" ++ tag ++ "` at " ++ path.render ++ "; visiting without children" := by
  have hstart : "WARN" ++ " " ++ "Unknown node type `" = "WARN Unknown node type `" := by decide
  show "WARN" ++ " " ++ ("Unknown node type `" ++ tag ++ "` at " ++ path.render ++
    "; visiting without children") = _
  rw [← hstart]
  simp only [String.append_assoc]

theorem line_walkCompleted (nodes : ℕ) : (walkCompleted nodes).line =
    "DEBUG Traversal completed: " ++ toString nodes ++ " nodes" := by
  have hstart : "DEBUG" ++ " " ++ "Traversal completed: " = "DEBUG Traversal completed: " := by decide
  show "DEBUG" ++ " " ++ ("Traversal completed: " ++ toString nodes ++ " nodes") = _
  rw [← hstart]
  simp only [String.append_assoc]

theorem line_walkStopped (phase : Phase) (nodes : ℕ) : (walkStopped phase nodes).line =
    "DEBUG Traversal stopped in " ++ phase.name ++ " after " ++ toString nodes ++ " nodes" := by
  have hstart : "DEBUG" ++ " " ++ "Traversal stopped in " = "DEBUG Traversal stopped in " := by decide
  show "DEBUG" ++ " " ++ ("Traversal stopped in " ++ phase.name ++ " after " ++ toString nodes ++
    " nodes") = _
  rw [← hstart]
  simp only [String.append_assoc]

end Log

/-! ## What the calls say -/

/-- Calls with the paths at which they are made, in order, after the given calls were opened. -/
def placedFrom (opened : List Call) : List Call → List (Call × Path)
  | [] => []
  | call :: rest => (call, call.path opened) :: placedFrom (call.turn opened) rest

theorem placedFrom_concat (opened calls : List Call) (call : Call) :
    placedFrom opened (calls ++ [call]) =
      placedFrom opened calls ++ [(call, call.path (calls.foldl Call.turn opened))] := by
  induction calls generalizing opened with
  | nil => rfl
  | cons first rest ih => rw [List.cons_append, placedFrom, ih, placedFrom, List.foldl_cons, List.cons_append]

namespace Walker

/-- The warning that a call at a path gives rise to: its node is entered, under a tag without an entry. -/
def warning? (walker : Walker) (made : Call × Path) : Option Log :=
  match made.1.phase, made.1.node.tag? with
  | .enter, some tag => if walker.registry.contains tag then none else some (.unknownType tag made.2)
  | _, _ => none

/-- The warnings that calls from the start of a walk on give rise to, in order. -/
def warnings (walker : Walker) (calls : List Call) : List Log :=
  (placedFrom [] calls).filterMap walker.warning?

theorem warnings_concat (walker : Walker) (calls : List Call) (call : Call) :
    walker.warnings (calls ++ [call]) =
      walker.warnings calls ++ (walker.warning? (call, call.path (openCalls calls))).toList := by
  rw [warnings, placedFrom_concat, List.filterMap_append, ← openCalls, warnings]
  cases hwarning : walker.warning? (call, call.path (openCalls calls)) <;> simp [hwarning]

theorem warning?_leave (walker : Walker) (node : Json) (context : Context) (path : Path) :
    walker.warning? (⟨.leave, node, context⟩, path) = none := rfl

/-- A node that passes the examination gives rise to a warning exactly if its tag was found to be unknown. -/
theorem warning?_of_examine {walker : Walker} {node : Json} {depth : ℕ} {place : Place} {found : Finding}
    (h : walker.examine node depth place = .ok found) (context : Context) (path : Path) :
    walker.warning? (⟨.enter, node, context⟩, path) =
      if found.known then none else some (.unknownType found.nodeType path) := by
  obtain ⟨htag, -, hentry⟩ := examine_eq_ok_iff.1 h
  have hcontains : walker.registry.contains found.nodeType = (walker.registry.keys? found.nodeType).isSome := by
    rw [Registry.contains, Registry.keys?, Option.isSome_map]
  simp only [warning?, htag, hcontains]
  rcases hentry with ⟨hkeys, hknown⟩ | ⟨hkeys, -, -, hknown⟩
  · simp [hkeys, hknown]
  · simp [hkeys, hknown]

end Walker

/-- The number of nodes that calls enter. -/
def entryCount (calls : List Call) : ℕ :=
  calls.countP fun call => call.phase = .enter

/-- How a run over a tree ends, with what is logged at its end. Nothing is logged without a tree or if the walk
fails. Otherwise one entry says that the walk completed, or in which phase the visitor stopped it, which is the
phase of the last call; and it gives the number of the nodes entered. -/
inductive Run.ClosesWith (run : Run σ ε) (visitor : Visitor σ ε) (root : Json) (state : σ) : List Log → Prop
  | void (hroot : root.isNull = true) (hresult : run.result = .ok .completed) (hcalls : run.calls = []) :
      ClosesWith run visitor root state []
  | completed (hroot : root.isNull = false) (hresult : run.result = .ok .completed) :
      ClosesWith run visitor root state [.walkCompleted (entryCount run.calls)]
  | stopped (before : List Call) (last : Call) (hroot : root.isNull = false)
      (hresult : run.result = .ok .stopped) (hcalls : run.calls = before ++ [last])
      (hanswer : visitor.answer (before.foldl visitor.after state) last = .ok .stop) :
      ClosesWith run visitor root state [.walkStopped last.phase (entryCount run.calls)]
  | failed {failure : Failure ε} (hroot : root.isNull = false) (hresult : run.result = .error failure) :
      ClosesWith run visitor root state []

/-! ## What the machine keeps -/

namespace Machine

/-- What a machine keeps is what the calls so far say. -/
structure Accounted (walker : Walker) (visitor : Visitor σ ε) (state : σ) (machine : Machine σ) : Prop where
  /-- The edges kept beside the stack are those of the open calls. -/
  steps : machine.steps = (openCalls machine.progress.calls.reverse).map fun call => call.context.edge
  /-- The log holds the warnings of the calls. -/
  logs : machine.progress.logs.reverse = walker.warnings machine.progress.calls.reverse
  /-- The nodes entered were counted. -/
  entered : machine.progress.entered = entryCount machine.progress.calls.reverse
  /-- The visitor is in the state to which the calls have led it. -/
  state_eq : machine.progress.state = machine.progress.calls.reverse.foldl visitor.after state

theorem accounted_start (walker : Walker) (visitor : Visitor σ ε) (root : Json) (state : σ) :
    Accounted walker visitor state (start root state) :=
  ⟨rfl, rfl, rfl, rfl⟩

section Step

variable {walker : Walker} {visitor : Visitor σ ε} {state : σ} {machine : Machine σ} {node : Json}
  {edge : Option Edge} {found : Walker.Finding}

/-- The place of a node that is entered is the path at which it is called. -/
theorem Accounted.path_enter (h : Accounted walker visitor state machine) (node : Json) (edge : Option Edge)
    (found : Walker.Finding) :
    (Place.mk edge machine.steps).path =
      Call.path (openCalls machine.progress.calls.reverse) ⟨.enter, node, machine.contextFor edge found⟩ := by
  -- both paths are read off backward, one from the kept edges and one from the open calls
  show (edge :: machine.steps).reverse.filterMap id = openPath (_ :: _)
  rw [h.steps, openPath, List.reverse_cons, List.reverse_cons, List.filterMap_append, List.filterMap_append,
    ← List.map_reverse, List.filterMap_map]
  rfl

/-- When the hook was called for a node that is entered, the log holds the warnings of the calls. -/
theorem Accounted.logs_entering (h : Accounted walker visitor state machine)
    (hfound : walker.examine node machine.ancestors.depth ⟨edge, machine.steps⟩ = .ok found) :
    (machine.entering visitor node edge found).logs.reverse =
      walker.warnings (machine.entering visitor node edge found).calls.reverse := by
  rw [calls_entering, List.reverse_cons, Walker.warnings_concat, ← h.logs, ← h.path_enter,
    Walker.warning?_of_examine hfound]
  show (machine.progress.noteUnknown found ⟨edge, machine.steps⟩).logs.reverse = _
  rw [Progress.noteUnknown]
  split
  · simp
  · simp [Progress.log]

theorem Accounted.logs_leaving (h : Accounted walker visitor state machine) (node : Json) (nodeType : String)
    (edge : Option Edge) :
    (machine.leaving visitor node nodeType edge).logs.reverse =
      walker.warnings (machine.leaving visitor node nodeType edge).calls.reverse := by
  rw [calls_leaving, List.reverse_cons, Walker.warnings_concat, ← h.logs, Walker.warning?_leave,
    Option.toList_none, List.append_nil]
  rfl

theorem Accounted.entered_entering (h : Accounted walker visitor state machine) (node : Json)
    (edge : Option Edge) (found : Walker.Finding) :
    (machine.entering visitor node edge found).countNode.entered =
      entryCount (machine.entering visitor node edge found).calls.reverse := by
  show (machine.progress.noteUnknown found ⟨edge, machine.steps⟩).entered + 1 = _
  rw [Progress.entered_noteUnknown, h.entered, calls_entering, entryCount, entryCount, List.reverse_cons,
    List.countP_append]
  rfl

theorem Accounted.entered_leaving (h : Accounted walker visitor state machine) (node : Json)
    (nodeType : String) (edge : Option Edge) :
    (machine.leaving visitor node nodeType edge).entered =
      entryCount (machine.leaving visitor node nodeType edge).calls.reverse := by
  show machine.progress.entered = _
  rw [h.entered, calls_leaving, entryCount, entryCount, List.reverse_cons, List.countP_append]
  rfl

/-- A step keeps the account. -/
theorem Accounted.step {next : Machine σ} (h : Accounted walker visitor state machine)
    (hstep : Steps walker visitor machine next) : Accounted walker visitor state next := by
  have hstate : next.progress.state = next.progress.calls.reverse.foldl visitor.after state := by
    obtain ⟨call, hcalls, hnext⟩ := hstep.state_eq
    rw [hnext, hcalls, List.reverse_cons, List.foldl_append, ← h.state_eq]
    rfl
  cases hstep with
  | @enter node edge rest found action hstack hfound hanswer haction =>
    refine ⟨?_, h.logs_entering hfound, h.entered_entering node edge found, hstate⟩
    show edge :: machine.steps =
      (openCalls (machine.entering visitor node edge found).calls.reverse).map _
    rw [calls_entering, List.reverse_cons, openCalls_concat, h.steps]
    rfl
  | @leave node nodeType edge rest action hstack hanswer haction =>
    refine ⟨?_, h.logs_leaving node nodeType edge, h.entered_leaving node nodeType edge, hstate⟩
    show machine.steps.tail =
      (openCalls (machine.leaving visitor node nodeType edge).calls.reverse).map _
    rw [calls_leaving, List.reverse_cons, openCalls_concat, h.steps, ← List.map_tail]
    rfl

/-- Where a step ends the walk of a tree, the log holds the warnings of the calls and what belongs to its end. -/
theorem Accounted.halt {root : Json} {run : Run σ ε} (h : Accounted walker visitor state machine)
    (hroot : root.isNull = false) (hhalt : Halts walker visitor machine run) :
    ∃ closing, run.logs = walker.warnings run.calls ++ closing ∧
      run.ClosesWith visitor root state closing := by
  cases hhalt with
  | completed hstack =>
    refine ⟨[.walkCompleted machine.progress.entered], ?_, ?_⟩
    · rw [Progress.calls_completed, ← h.logs, ← List.reverse_cons]
      rfl
    · rw [h.entered]
      exact .completed hroot rfl
  | fault hstack hfault =>
    refine ⟨[], ?_, .failed hroot rfl⟩
    rw [Progress.calls_failed, ← h.logs, List.append_nil]
    rfl
  | @enterFailed node edge rest found error hstack hfound hanswer =>
    -- the warning is given before the hook is called, so it stays when the hook fails
    refine ⟨[], ?_, .failed hroot rfl⟩
    rw [Progress.calls_failed, ← h.logs_entering hfound, List.append_nil]
    rfl
  | @enterStopped node edge rest found hstack hfound hlast =>
    -- the node is counted before the walk ends
    rw [h.state_eq] at hlast
    refine ⟨[.walkStopped .enter (machine.entering visitor node edge found).countNode.entered], ?_, ?_⟩
    · rw [Progress.calls_stopped, Progress.calls_countNode, ← h.logs_entering hfound, ← List.reverse_cons]
      rfl
    · rw [h.entered_entering]
      refine .stopped _ ⟨.enter, node, machine.contextFor edge found⟩ hroot rfl ?_ hlast
      rw [Progress.calls_stopped, Progress.calls_countNode, calls_entering, List.reverse_cons]
  | @leaveFailed node nodeType edge rest error hstack hanswer =>
    refine ⟨[], ?_, .failed hroot rfl⟩
    rw [Progress.calls_failed, ← h.logs_leaving, List.append_nil]
    rfl
  | @leaveStopped node nodeType edge rest hstack hlast =>
    rw [h.state_eq] at hlast
    refine ⟨[.walkStopped .leave (machine.leaving visitor node nodeType edge).entered], ?_, ?_⟩
    · rw [Progress.calls_stopped, ← h.logs_leaving, ← List.reverse_cons]
      rfl
    · rw [h.entered_leaving]
      refine .stopped _ ⟨.leave, node, machine.closingContext nodeType edge⟩ hroot rfl ?_ hlast
      rw [Progress.calls_stopped, calls_leaving, List.reverse_cons]

/-! ## The paths of the calls -/

/-- The edge of a node to be left is kept first beside the stack. -/
theorem Anchored.steps_eq_cons {root : Json} {nodeType : String} {rest : List Frame}
    (h : Anchored walker root machine) (hstack : machine.stack = .leave node nodeType edge :: rest) :
    machine.steps = edge :: machine.steps.tail := by
  rw [Anchored, hstack] at h
  generalize machine.ancestors.nearestFirst = nodes at h
  generalize machine.steps = edges at h ⊢
  cases h with
  | leave hnode htag hdepth hrest => rfl

/-- The path at which a step makes its call leads to the node of the call. -/
theorem Accounted.reachable {root : Json} {call : Call} (h : Accounted walker visitor state machine)
    (hroot : root.isNull = false) (hanchored : Anchored walker root machine)
    (hmakes : Makes walker machine call) :
    walker.Reachable root (call.path (openCalls machine.progress.calls.reverse)) call.node := by
  cases hmakes with
  | @enter node edge rest found hstack hfound =>
    rw [← h.path_enter]
    exact (hanchored.top_enter hstack).1.reachable hroot
  | @leave node nodeType edge rest hstack =>
    have haddress := (hanchored.top_leave hstack).2.1.reachable hroot
    have hpath : (Place.mk edge machine.steps.tail).path =
        openPath (openCalls machine.progress.calls.reverse) := by
      rw [Place.path, ← hanchored.steps_eq_cons hstack, h.steps, openPath, ← List.map_reverse,
        List.filterMap_map]
      rfl
    rw [hpath] at haddress
    exact haddress

end Step

end Machine

namespace Walker

/-- The paths at which the calls are made lead to their nodes. -/
def Placed (walker : Walker) (root : Json) (calls : List Call) : Prop :=
  ∀ made ∈ placedFrom [] calls, walker.Reachable root made.2 made.1.node

/-- One more call is placed well if the path at which it is made leads to its node. -/
theorem Placed.concat {walker : Walker} {root : Json} {calls : List Call} {call : Call}
    (h : walker.Placed root calls) (hcall : walker.Reachable root (call.path (openCalls calls)) call.node) :
    walker.Placed root (calls ++ [call]) := by
  rw [Placed, placedFrom_concat, List.forall_mem_append, List.forall_mem_singleton]
  exact ⟨h, hcall⟩

/-- Each call of a walk is made at a path that leads to its node. -/
theorem placed_walk (walker : Walker) (visitor : Visitor σ ε) (root : Json) (state : σ) :
    walker.Placed root (walker.walk visitor root state).calls := by
  rw [walk]
  split
  · exact List.forall_mem_nil _
  · rename_i hroot
    -- the account gives the path, and the anchored stack says where it leads
    refine @Machine.run_of_invariant _ _ walker visitor
      (fun machine => (machine.Accounted walker visitor state ∧ machine.Anchored walker root) ∧
        walker.Placed root machine.progress.calls.reverse)
      (fun run => walker.Placed root run.calls) ?_ ?_ _
      ⟨⟨Machine.accounted_start walker visitor root state, Machine.anchored_start walker root state⟩,
        List.forall_mem_nil _⟩
    · rintro machine next ⟨⟨haccounted, hanchored⟩, hplaced⟩ hsteps
      obtain ⟨call, hmakes, hcalls⟩ := hsteps.calls_eq
      refine ⟨⟨haccounted.step hsteps, Machine.anchored_step hanchored hsteps⟩, ?_⟩
      rw [hcalls, List.reverse_cons]
      exact hplaced.concat (haccounted.reachable (Bool.eq_false_iff.2 hroot) hanchored hmakes)
    · rintro machine run ⟨⟨haccounted, hanchored⟩, hplaced⟩ hhalts
      rcases hhalts.calls_eq with hcalls | ⟨call, hmakes, hcalls⟩
      · rw [hcalls]
        exact hplaced
      · rw [hcalls, List.reverse_cons]
        exact hplaced.concat (haccounted.reachable (Bool.eq_false_iff.2 hroot) hanchored hmakes)

/-! ## The log of a walk -/

/-- What the log of a walk says is true. It consists of one warning for each call that enters a node under a tag
without an entry, in the order of the calls, with this tag and the path of the call, whatever the visitor answers;
and of one more entry if there is a tree and the walk does not fail. This entry says how the walk ended and gives
the number of calls that entered a node, also of one in which the visitor stopped the walk. The paths are
those of the nodes in the tree. In a warning the path is rendered. -/
theorem walk_logs (walker : Walker) (visitor : Visitor σ ε) (root : Json) (state : σ) :
    (∃ closing, (walker.walk visitor root state).logs =
        walker.warnings (walker.walk visitor root state).calls ++ closing ∧
      (walker.walk visitor root state).ClosesWith visitor root state closing) ∧
    (∀ made ∈ placedFrom [] (walker.walk visitor root state).calls,
      walker.Reachable root made.2 made.1.node) ∧
    (∀ tag path, (Log.unknownType tag path).line =
      "WARN Unknown node type `" ++ tag ++ "` at " ++ path.render ++ "; visiting without children") ∧
    (∀ nodes, (Log.walkCompleted nodes).line = "DEBUG Traversal completed: " ++ toString nodes ++ " nodes") ∧
    (∀ phase nodes, (Log.walkStopped phase nodes).line =
      "DEBUG Traversal stopped in " ++ phase.name ++ " after " ++ toString nodes ++ " nodes") := by
  refine ⟨?_, walker.placed_walk visitor root state, Log.line_unknownType, Log.line_walkCompleted,
    Log.line_walkStopped⟩
  rw [walk]
  split
  · rename_i hroot
    exact ⟨[], rfl, .void hroot rfl rfl⟩
  · rename_i hroot
    exact Machine.run_of_invariant (fun _ _ h hstep => Machine.Accounted.step h hstep)
      (fun _ _ h hhalt => h.halt (Bool.eq_false_iff.2 hroot) hhalt) _
      (Machine.accounted_start walker visitor root state)

-- The visitor stops when it enters a node of an unknown type, which is warned of and counted; the next is neither.
example : (walk ⟨⟨.ofList [("Block", ["body"])]⟩, .lenient, none⟩
      (⟨fun _ context _ => (.ok (if context.nodeType = "Block" then .proceed else .stop), ()),
        fun _ _ _ => (.ok .proceed, ())⟩ : Visitor Unit Empty)
      (.object [("body", .array [.object [("type", .string "Mystery")], .object [("type", .string "Riddle")]]),
        ("type", .string "Block")]) ()).logs =
    [.unknownType "Mystery" [⟨"body", some 0⟩], .walkStopped .enter 2] := by decide +kernel

end Walker

end SyntaxWalk
