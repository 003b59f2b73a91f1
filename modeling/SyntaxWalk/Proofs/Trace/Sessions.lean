import Mathlib
import SyntaxWalk.Proofs.Walk.Pairing
import SyntaxWalk.Proofs.Walk.Relaxation
import SyntaxWalk.Proofs.Walk.States
import SyntaxWalk.Trace.Basic

/-!
# Several walks into one tracer

A tracer may be carried through any number of walks (`Tracer.recordAll`). No walk sees what was written
before it: each has the result that it has with a new tracer, and the trace is what the walks write with new
tracers, joined in order.

A walk that fails at a node leaves open as many nodes as the path of the node has edges
(`nested_walk`). Nodes left open are never closed by later walks, even by nodes of the same
type: a walk closes only what it has opened itself (`closes_events`). So the joined trace is well nested
exactly if every walk completes or fails at its root, where nothing is written (`recordAll_fresh`).
-/

set_option autoImplicit false

namespace SyntaxWalk

universe u v

variable {σ : Type u} {ε : Type v}

/-! ## What a walk leaves open -/

namespace Walker

/-- A fault is reported at the place of the examination. -/
theorem path_of_examine {walker : Walker} {node : Json} {depth : Nat} {place : Place} {fault : Fault}
    (h : walker.examine node depth place = .error fault) : fault.path = place.path := by
  unfold examine at h
  split at h
  · cases h
    rfl
  · split at h
    · cases h
      rfl
    · split at h
      · cases h
      · split at h
        · cases h
          rfl
        · cases h

/-- The calls of a walk are nested. A walk that completes leaves nothing open, and one that fails at a node
leaves open one node for each edge of the path to it. -/
theorem nested_walk (walker : Walker) (visitor : Visitor σ ε) (root : Json) (state : σ) :
    Nested (walker.walk visitor root state).calls ∧
    ((walker.walk visitor root state).result = .ok .completed →
      openCalls (walker.walk visitor root state).calls = []) ∧
    ∀ fault, (walker.walk visitor root state).result = .error (.fault fault) →
      (openCalls (walker.walk visitor root state).calls).length = fault.path.length := by
  unfold walk
  split
  · refine ⟨nested_nil, fun _ => rfl, ?_⟩
    intro fault hresult
    cases hresult
  · refine @Machine.run_of_invariant _ _ walker visitor
      (fun machine => machine.Paired ∧ machine.Anchored walker root)
      (fun run => Nested run.calls ∧ (run.result = .ok .completed → openCalls run.calls = []) ∧
        ∀ fault, run.result = .error (.fault fault) →
          (openCalls run.calls).length = fault.path.length) ?_ ?_ _
      ⟨Machine.paired_start root state, Machine.anchored_start walker root state⟩
    · rintro machine next ⟨hpaired, hanchored⟩ hsteps
      exact ⟨hpaired.step hsteps, Machine.anchored_step hanchored hsteps⟩
    · rintro machine run ⟨hpaired, hanchored⟩ hhalts
      obtain ⟨hnested, hcompleted⟩ := hpaired.halt hhalts
      refine ⟨hnested, hcompleted, ?_⟩
      intro fault hresult
      cases hhalts with
      | fault hstack hfault =>
        cases hresult
        -- the open nodes are those above the node that was examined
        have hlength := (hanchored.top_enter hstack).1.length_path
        rw [path_of_examine hfault, hlength, hpaired.ancestors, List.length_map]
        rfl
      | completed hstack => cases hresult
      | enterFailed hstack hfound hanswer => cases hresult
      | enterStopped hstack hfound hanswer => cases hresult
      | leaveFailed hstack hanswer => cases hresult
      | leaveStopped hstack hanswer => cases hresult

/-- A walk that fails at its root has made no call. -/
theorem calls_of_root_fault {walker : Walker} {visitor : Visitor σ ε} {root : Json} {state : σ}
    {fault : Fault} (h : (walker.walk visitor root state).result = .error (.fault fault))
    (hpath : fault.path = []) : (walker.walk visitor root state).calls = [] := by
  obtain ⟨node, hnode, hreports, -⟩ := reports_of_result h
  rw [hpath] at hnode hreports
  cases hnode.eq_of_nil
  cases hfound : walker.examine root 0 ⟨none, []⟩ with
  | ok found => exact absurd hreports.1 (not_hasFault_of_examine hfound fault)
  | error other =>
    -- the first step ends the walk
    have hhalts : Machine.Halts walker visitor (Machine.start root state) _ :=
      .fault rfl hfound
    unfold walk
    split
    · rfl
    · rw [Machine.run_of_halt hhalts.step_eq]
      rfl

end Walker

/-! ## The events of a walk -/

/-- The event that a tracer writes down at a call. -/
def Call.event (call : Call) : Event :=
  ⟨call.phase, call.context.nodeType⟩

/-- Nested calls close nothing but what they have opened, and leave the rest to close what they leave open
as well as what was open before. -/
theorem Trace.closes_events {calls : List Call} (h : Nested calls) (opened : List String)
    (rest : Trace) :
    Trace.closes opened (calls.map Call.event ++ rest) =
      Trace.closes ((openCalls calls).map (fun call => call.context.nodeType) ++ opened) rest := by
  induction calls using List.reverseRecOn generalizing rest with
  | nil => rfl
  | append_singleton calls call ih =>
    obtain ⟨hinit, hfits⟩ := h.of_concat
    rw [List.map_append, List.append_assoc, ih hinit, openCalls_concat]
    rcases call with ⟨phase, node, context⟩
    cases phase with
    | enter => rfl
    | leave =>
      -- the last call leaves the node that was entered last, so that the types agree
      obtain ⟨entered, outer, hopened, -, -, hcontext, -⟩ := hfits
      rw [hopened]
      cases hcontext
      simp [Call.event, Trace.closes, Call.turn]

namespace Tracer

/-- What the hooks of a tracer make of it: the events of the calls are written after those before. -/
theorem trace_foldl_after (tracer : Tracer) (calls : List Call) :
    (calls.foldl visitor.after tracer).trace = tracer.trace ++ calls.map Call.event := by
  induction calls generalizing tracer with
  | nil => simp
  | cons call rest ih =>
    have hafter : visitor.after tracer call = tracer.push call.event := by
      rcases call with ⟨phase, node, context⟩
      cases phase with
      | enter => rfl
      | leave => rfl
    rw [List.foldl_cons, ih, hafter, trace_push, List.append_assoc]
    rfl

/-- A walk writes the events of its calls after what was written before. -/
theorem trace_record (tracer : Tracer) (walker : Walker) (root : Json) :
    (tracer.record walker root).state.trace =
      tracer.trace ++ (tracer.record walker root).calls.map Call.event := by
  rw [record, Walker.state_walk, trace_foldl_after]

theorem trace_record_empty (walker : Walker) (root : Json) :
    (empty.record walker root).state.trace = (empty.record walker root).calls.map Call.event := by
  rw [trace_record]
  rfl

theorem mirrors_after (before : Trace) :
    visitor.Mirrors (fun fresh tracer : Tracer => tracer.trace = before ++ fresh.trace) visitor := by
  intro phase node context fresh tracer htrace
  cases phase with
  | enter => exact ⟨rfl, by simp [Visitor.hook, visitor, hook, htrace]⟩
  | leave => exact ⟨rfl, by simp [Visitor.hook, visitor, hook, htrace]⟩

/-- A walk is the same whatever was written before, and writes the same events after it. -/
theorem record_eq (tracer : Tracer) (walker : Walker) (root : Json) :
    (tracer.record walker root).result = (empty.record walker root).result ∧
      (tracer.record walker root).state.trace =
        tracer.trace ++ (empty.record walker root).state.trace := by
  have hstart : tracer.trace = tracer.trace ++ empty.trace := by simp [trace, empty]
  obtain ⟨last, hlast, hrun⟩ := walker.walk_of_mirrors (mirrors_after tracer.trace) root hstart
  rw [record, hrun]
  exact ⟨rfl, hlast⟩

/-- A walk by a tracer completes or fails at a node. -/
theorem result_record (tracer : Tracer) (walker : Walker) (root : Json) :
    (tracer.record walker root).result = .ok .completed ∨
      ∃ fault, (tracer.record walker root).result = .error (.fault fault) := by
  have hobserver : visitor = .observer fun phase _ context tracer =>
      tracer.push ⟨phase, context.nodeType⟩ := rfl
  rw [record, hobserver]
  rcases walker.walk_observed _ root tracer with ⟨hresult, -⟩ | ⟨_, _, _, fault, -, -, -, hresult, -⟩
  · exact Or.inl hresult
  · exact Or.inr ⟨fault, hresult⟩

/-! ## Sessions -/

/-- Walks trees one after the other into one tracer, each by its own rules: the results of the walks, and
the tracer after the last of them. -/
def recordAll (tracer : Tracer) :
    List (Walker × Json) → List (Except (Failure Empty) Outcome) × Tracer
  | [] => ([], tracer)
  | (walker, root) :: rest =>
    let run := tracer.record walker root
    let (results, last) := run.state.recordAll rest
    (run.result :: results, last)

/-- What a walk writes with a new tracer. -/
def written (walk : Walker × Json) : Trace :=
  (empty.record walk.1 walk.2).state.trace

/-- The types of the nodes that a walk leaves open, innermost first. -/
def leftOpen (walk : Walker × Json) : List String :=
  (openCalls (empty.record walk.1 walk.2).calls).map fun call => call.context.nodeType

/-- Each walk of a session has its own result and writes its own events after the others. -/
theorem recordAll_eq (walks : List (Walker × Json)) (tracer : Tracer) :
    (tracer.recordAll walks).1 = walks.map (fun walk => (empty.record walk.1 walk.2).result) ∧
      (tracer.recordAll walks).2.trace = tracer.trace ++ walks.flatMap written := by
  induction walks generalizing tracer with
  | nil => exact ⟨rfl, by simp [recordAll]⟩
  | cons walk rest ih =>
    rcases walk with ⟨walker, root⟩
    obtain ⟨hresult, htrace⟩ := tracer.record_eq walker root
    obtain ⟨hresults, hrest⟩ := ih (tracer.record walker root).state
    constructor
    · rw [recordAll, List.map_cons, ← hresults, ← hresult]
    · rw [recordAll, hrest, htrace, List.flatMap_cons, List.append_assoc]
      rfl

/-- The walks of a session close nothing that was open before them, nor what one of them leaves open. -/
theorem closes_written (walks : List (Walker × Json)) (opened : List String) :
    Trace.closes opened (walks.flatMap written) = true ↔
      opened = [] ∧ ∀ walk ∈ walks, leftOpen walk = [] := by
  induction walks generalizing opened with
  | nil => simp [Trace.closes]
  | cons walk rest ih =>
    have hnested := (walk.1.nested_walk visitor walk.2 empty).1
    -- the nodes that this walk leaves open join those that the rest would have to close
    have hcloses := Trace.closes_events hnested opened (rest.flatMap written)
    rw [List.flatMap_cons, written, trace_record_empty, record, hcloses, ih, List.append_eq_nil_iff,
      List.forall_mem_cons]
    show (leftOpen walk = [] ∧ opened = []) ∧ _ ↔ _
    constructor
    · rintro ⟨⟨hwalk, hopened⟩, hrest⟩
      exact ⟨hopened, hwalk, hrest⟩
    · rintro ⟨hopened, hwalk, hrest⟩
      exact ⟨⟨hwalk, hopened⟩, hrest⟩

/-- A walk leaves nothing open exactly if it completes or fails at its root, where it has written nothing. -/
theorem leftOpen_eq_nil_iff (walk : Walker × Json) :
    leftOpen walk = [] ↔
      (empty.record walk.1 walk.2).result = .ok .completed ∨
        ∃ fault, (empty.record walk.1 walk.2).result = .error (.fault fault) ∧ fault.path = [] ∧
          written walk = [] := by
  obtain ⟨-, hcompleted, hfailed⟩ := walk.1.nested_walk visitor walk.2 empty
  rw [leftOpen, List.map_eq_nil_iff]
  constructor
  · intro hopen
    rcases empty.result_record walk.1 walk.2 with hresult | ⟨fault, hresult⟩
    · exact Or.inl hresult
    · have hlength := hfailed fault hresult
      rw [record] at hopen
      rw [hopen, List.length_nil] at hlength
      have hpath : fault.path = [] := List.eq_nil_of_length_eq_zero hlength.symm
      have hcalls : (empty.record walk.1 walk.2).calls = [] :=
        Walker.calls_of_root_fault hresult hpath
      refine Or.inr ⟨fault, hresult, hpath, ?_⟩
      rw [written, trace_record_empty, hcalls, List.map_nil]
  · rintro (hresult | ⟨fault, hresult, hpath, -⟩)
    · exact hcompleted hresult
    · apply List.eq_nil_of_length_eq_zero
      rw [record, hfailed fault hresult, hpath, List.length_nil]

/-- For walks of any trees by any rules, one after the other into one tracer: the trace is what the walks
write with new tracers, joined in order, and each walk has the result that it has with a new tracer. The
trace is well nested exactly if each walk completes or fails at its root before any event. After a walk that
fails below its root no later walks make the trace well nested. -/
theorem recordAll_fresh (walks : List (Walker × Json)) :
    (empty.recordAll walks).2.trace = walks.flatMap written ∧
    (empty.recordAll walks).1 = walks.map (fun walk => (empty.record walk.1 walk.2).result) ∧
    ((empty.recordAll walks).2.trace.isWellNested = true ↔
      ∀ walk ∈ walks, (empty.record walk.1 walk.2).result = .ok .completed ∨
        ∃ fault, (empty.record walk.1 walk.2).result = .error (.fault fault) ∧ fault.path = [] ∧
          written walk = []) ∧
    ∀ walk ∈ walks, ∀ fault, (empty.record walk.1 walk.2).result = .error (.fault fault) →
      fault.path ≠ [] →
      ∀ later, (empty.recordAll (walks ++ later)).2.trace.isWellNested = false := by
  have htrace : ∀ session, (empty.recordAll session).2.trace = session.flatMap written :=
    fun session => (recordAll_eq session empty).2
  have hnested : ∀ session, (empty.recordAll session).2.trace.isWellNested = true ↔
      ∀ walk ∈ session, leftOpen walk = [] := by
    intro session
    rw [htrace, Trace.isWellNested, closes_written]
    simp
  refine ⟨htrace walks, (recordAll_eq walks empty).1, ?_, ?_⟩
  · rw [hnested]
    simp only [leftOpen_eq_nil_iff]
  · intro walk hwalk fault hresult hpath later
    rw [Bool.eq_false_iff]
    intro hwell
    -- the nodes that this walk leaves open are open after the whole session
    have hopen := (hnested _).1 hwell walk (List.mem_append_left later hwalk)
    rcases (leftOpen_eq_nil_iff walk).1 hopen with hdone | ⟨other, hother, hroot, -⟩
    · rw [hresult] at hdone
      cases hdone
    · rw [hresult] at hother
      cases hother
      exact hpath hroot

/-- A block is left open below the limit; walking the same blocks once more, without a limit, does not close
it. -/
theorem recordAll_fresh_nestedBlocks :
    (empty.record Walker.blocks Walker.nestedBlocks).result =
      .error (.fault (.tooDeep 1 [⟨"body", some 0⟩, ⟨"body", some 1⟩])) ∧
    (empty.recordAll ([(Walker.blocks, Walker.nestedBlocks)] ++
      [(Walker.freeBlocks, Walker.nestedBlocks)])).2.trace.isWellNested = false := by
  have hresult : (empty.record Walker.blocks Walker.nestedBlocks).result =
      .error (.fault (.tooDeep 1 [⟨"body", some 0⟩, ⟨"body", some 1⟩])) := by cbv
  obtain ⟨-, -, -, hbroken⟩ := recordAll_fresh [(Walker.blocks, Walker.nestedBlocks)]
  exact ⟨hresult, hbroken _ List.mem_cons_self _ hresult (List.cons_ne_nil _ _) _⟩

end Tracer

end SyntaxWalk
