import Mathlib.Data.List.Induction
import SyntaxWalk.Proofs.Walk.Recursion

/-!
# Enter and leave come in pairs

At every moment of a walk some nodes have been entered and not yet left. `openCalls` reads them off the
calls made so far. A next call fits them (`Call.Fits`) when it enters a node right below the open ones or
leaves the one opened last, with the same node and the same context as at its entry.

In every walk each call fits the calls before it (`walk_calls_nested`), whatever the visitor answers and
however the walk ends, and a walk that completes has no open call. The machine keeps the `leave` frames
buried in its stack, its ancestors and the open calls in step (`Machine.Paired`); the statement is proved
for one step and then for a run.
-/

set_option autoImplicit false

namespace SyntaxWalk

universe u v

variable {σ : Type u} {ε : Type v}

/-! ## Open calls -/

/-- The open calls after one more call, latest first: an `enter` call is opened, a `leave` call closes the
latest one. -/
def Call.turn (opened : List Call) (call : Call) : List Call :=
  match call.phase with
  | .enter => call :: opened
  | .leave => opened.tail

/-- The calls that are open after the given ones, latest first. -/
def openCalls (calls : List Call) : List Call :=
  calls.foldl Call.turn []

@[simp] theorem openCalls_concat (calls : List Call) (call : Call) :
    openCalls (calls ++ [call]) = call.turn (openCalls calls) := by
  rw [openCalls, List.foldl_append]
  rfl

/-- What the next call has to do with the calls that are open, latest first. An `enter` call sees the
nodes of all of them as parents, oldest first. A `leave` call repeats the node and the context of the
latest one and sees the nodes of the others. -/
def Call.Fits (opened : List Call) (next : Call) : Prop :=
  match next.phase with
  | .enter => next.context.parents = (opened.map Call.node).reverse
  | .leave => ∃ entered outer, opened = entered :: outer ∧ entered.phase = .enter ∧
      next.node = entered.node ∧ next.context = entered.context ∧
      next.context.parents = (outer.map Call.node).reverse

/-- Each call fits the calls that are open when it is made. -/
def Nested (calls : List Call) : Prop :=
  ∀ (n : Nat) (next : Call), calls[n]? = some next → next.Fits (openCalls (calls.take n))

theorem nested_nil : Nested [] := by
  intro n next hnext
  simp at hnext

/-- One more call keeps the calls nested if it fits the open ones. -/
theorem Nested.concat {calls : List Call} {call : Call} (h : Nested calls)
    (hfits : call.Fits (openCalls calls)) : Nested (calls ++ [call]) := by
  intro n next hnext
  rcases Nat.lt_trichotomy n calls.length with hn | hn | hn
  · -- an earlier call has the same calls before it
    rw [List.getElem?_append_left hn] at hnext
    rw [List.take_append_of_le_length (Nat.le_of_lt hn)]
    exact h n next hnext
  · -- the new call comes after all others
    subst hn
    rw [List.getElem?_concat_length] at hnext
    cases hnext
    rw [List.take_left]
    exact hfits
  · rw [List.getElem?_eq_none (by simp; omega)] at hnext
    cases hnext

/-- Of nested calls, those but the last are nested too, and the last fits what they leave open. -/
theorem Nested.of_concat {calls : List Call} {call : Call} (h : Nested (calls ++ [call])) :
    Nested calls ∧ call.Fits (openCalls calls) := by
  constructor
  · intro n next hnext
    have hn := (List.getElem?_eq_some_iff.1 hnext).1
    have hfits := h n next (by rw [List.getElem?_append_left hn, hnext])
    rwa [List.take_append_of_le_length (Nat.le_of_lt hn)] at hfits
  · have hfits := h calls.length call (by rw [List.getElem?_concat_length])
    rwa [List.take_left] at hfits

/-- What is open was called. -/
theorem mem_of_mem_openCalls {calls : List Call} {call : Call} (h : call ∈ openCalls calls) :
    call ∈ calls := by
  induction calls using List.reverseRecOn with
  | nil => cases h
  | append_singleton calls last ih =>
    rw [openCalls_concat, Call.turn] at h
    rw [List.mem_append, List.mem_singleton]
    cases hphase : last.phase with
    | enter =>
      rw [hphase] at h
      rcases List.mem_cons.1 h with hlast | hopened
      · exact Or.inr hlast
      · exact Or.inl (ih hopened)
    | leave =>
      rw [hphase] at h
      exact Or.inl (ih (List.mem_of_mem_tail h))

/-- In nested calls every context is that of a call that enters a node. -/
theorem Nested.exists_enter {calls : List Call} (h : Nested calls) :
    ∀ call ∈ calls, ∃ entered ∈ calls, entered.phase = .enter ∧ entered.context = call.context := by
  intro call hcall
  obtain ⟨n, hn⟩ := List.getElem?_of_mem hcall
  have hfits := h n call hn
  rw [Call.Fits] at hfits
  cases hphase : call.phase with
  | enter => exact ⟨call, hcall, hphase, rfl⟩
  | leave =>
    rw [hphase] at hfits
    obtain ⟨entered, outer, hopened, henter, -, hcontext, -⟩ := hfits
    have hmem : entered ∈ openCalls (calls.take n) := by simp [hopened]
    exact ⟨entered, List.mem_of_mem_take (mem_of_mem_openCalls hmem), henter, hcontext.symm⟩

/-- In nested calls every node entered is either left or still open. -/
theorem Nested.countP_enter {calls : List Call} (h : Nested calls) :
    calls.countP (fun call => call.phase = .enter) =
      calls.countP (fun call => call.phase = .leave) + (openCalls calls).length := by
  induction calls using List.reverseRecOn with
  | nil => rfl
  | append_singleton calls call ih =>
    obtain ⟨hinit, hlast⟩ := h.of_concat
    rw [Call.Fits] at hlast
    rw [List.countP_append, List.countP_append, ih hinit, openCalls_concat, Call.turn]
    cases hphase : call.phase with
    | enter =>
      simp [hphase]
      omega
    | leave =>
      -- something is open, since the last call fits
      rw [hphase] at hlast
      obtain ⟨entered, outer, hopened, -⟩ := hlast
      simp [hphase, hopened]
      omega

/-! ## The frames that close the open calls -/

/-- Does the frame close a node? -/
def Frame.isLeave : Frame → Bool
  | .enter _ _ => false
  | .leave _ _ _ => true

/-- The frame that closes what a call opens. -/
def Call.closing (call : Call) : Frame :=
  .leave call.node call.context.nodeType call.context.edge

theorem filter_childFrames (children : List (Edge × Json)) (stack : List Frame) :
    (childFrames children ++ stack).filter Frame.isLeave = stack.filter Frame.isLeave := by
  induction children with
  | nil => rfl
  | cons child rest ih => exact ih

/-- Each open call, latest first, was made below the nodes of the ones opened before it. -/
def Stacked : List Call → Prop
  | [] => True
  | call :: outer =>
    call.phase = .enter ∧ call.context.ancestors.nearestFirst = outer.map Call.node ∧ Stacked outer

namespace Machine

/-- The stack, the ancestors and the calls of a machine speak of the same open nodes. -/
structure Paired (machine : Machine σ) : Prop where
  /-- The calls so far are nested. -/
  nested : Nested machine.progress.calls.reverse
  /-- The `leave` frames are those of the open calls. -/
  frames : machine.stack.filter Frame.isLeave =
    (openCalls machine.progress.calls.reverse).map Call.closing
  /-- The ancestors are the nodes of the open calls. -/
  ancestors : machine.ancestors.nearestFirst =
    (openCalls machine.progress.calls.reverse).map Call.node
  /-- The contexts of the open calls are those of their entries. -/
  contexts : Stacked (openCalls machine.progress.calls.reverse)

theorem paired_start (root : Json) (state : σ) : Paired (start root state) where
  nested := nested_nil
  frames := rfl
  ancestors := rfl
  contexts := trivial

theorem Paired.fits_enter {machine : Machine σ} (h : Paired machine) (node : Json)
    (edge : Option Edge) (found : Walker.Finding) :
    Call.Fits (openCalls machine.progress.calls.reverse)
      ⟨.enter, node, machine.contextFor edge found⟩ := by
  show machine.ancestors.nearestFirst.reverse = _
  rw [h.ancestors]

/-- A `leave` frame on top of the stack belongs to the latest open call, and what lies below it belongs to
the others. -/
theorem Paired.latest {machine : Machine σ} (h : Paired machine) {node : Json}
    {nodeType : String} {edge : Option Edge} {rest : List Frame}
    (hstack : machine.stack = .leave node nodeType edge :: rest) :
    ∃ entered outer, openCalls machine.progress.calls.reverse = entered :: outer ∧
      entered.phase = .enter ∧ node = entered.node ∧
      machine.closingContext nodeType edge = entered.context ∧
      rest.filter Frame.isLeave = outer.map Call.closing ∧
      machine.ancestors.pop.nearestFirst = outer.map Call.node ∧ Stacked outer := by
  have hframes : .leave node nodeType edge :: rest.filter Frame.isLeave =
      (openCalls machine.progress.calls.reverse).map Call.closing := by
    rw [← h.frames, hstack]
    rfl
  obtain ⟨entered, outer, hopened, hentered, houter⟩ := List.map_eq_cons_iff.1 hframes.symm
  have hcontexts := h.contexts
  rw [hopened] at hcontexts
  obtain ⟨hphase, habove, hstacked⟩ := hcontexts
  have hpop : machine.ancestors.pop.nearestFirst = outer.map Call.node := by
    show machine.ancestors.nearestFirst.tail = _
    rw [h.ancestors, hopened]
    rfl
  rw [Call.closing] at hentered
  cases hentered
  -- the ancestors left by taking off the node are those under which it was entered
  have hancestors : machine.ancestors.pop = entered.context.ancestors :=
    Ancestry.ext_nearestFirst (hpop.trans habove.symm)
  refine ⟨entered, outer, hopened, hphase, rfl, ?_, houter.symm, hpop, hstacked⟩
  rw [closingContext, hancestors]

theorem Paired.fits_leave {machine : Machine σ} (h : Paired machine) {node : Json}
    {nodeType : String} {edge : Option Edge} {rest : List Frame}
    (hstack : machine.stack = .leave node nodeType edge :: rest) :
    Call.Fits (openCalls machine.progress.calls.reverse)
      ⟨.leave, node, machine.closingContext nodeType edge⟩ := by
  obtain ⟨entered, outer, hopened, hphase, hnode, hcontext, -, hpop, -⟩ := h.latest hstack
  refine ⟨entered, outer, hopened, hphase, hnode, hcontext, ?_⟩
  show machine.ancestors.pop.nearestFirst.reverse = _
  rw [hpop]

/-- A step keeps the stack, the ancestors and the calls in step. -/
theorem Paired.step {walker : Walker} {visitor : Visitor σ ε} {machine next : Machine σ}
    (h : Paired machine) (hstep : Steps walker visitor machine next) : Paired next := by
  cases hstep with
  | @enter node edge rest found action hstack hfound hanswer haction =>
    have hcalls : openCalls (machine.entering visitor node edge found).calls.reverse =
        ⟨.enter, node, machine.contextFor edge found⟩ ::
          openCalls machine.progress.calls.reverse := by
      rw [calls_entering, List.reverse_cons, openCalls_concat]
      rfl
    constructor
    · show Nested (machine.entering visitor node edge found).calls.reverse
      rw [calls_entering, List.reverse_cons]
      exact h.nested.concat (h.fits_enter node edge found)
    · show List.filter Frame.isLeave (machine.descend _ node edge found action rest).stack =
        (openCalls (machine.entering visitor node edge found).calls.reverse).map Call.closing
      rw [stack_descend, filter_childFrames, hcalls, List.map_cons, ← h.frames, hstack]
      rfl
    · show node :: machine.ancestors.nearestFirst =
        (openCalls (machine.entering visitor node edge found).calls.reverse).map Call.node
      rw [hcalls, List.map_cons, ← h.ancestors]
    · show Stacked (openCalls (machine.entering visitor node edge found).calls.reverse)
      rw [hcalls]
      exact ⟨rfl, h.ancestors, h.contexts⟩
  | @leave node nodeType edge rest action hstack hanswer haction =>
    obtain ⟨entered, outer, hopened, -, -, -, hrest, hpop, hstacked⟩ := h.latest hstack
    have hcalls : openCalls (machine.leaving visitor node nodeType edge).calls.reverse =
        outer := by
      rw [calls_leaving, List.reverse_cons, openCalls_concat, hopened]
      rfl
    constructor
    · show Nested (machine.leaving visitor node nodeType edge).calls.reverse
      rw [calls_leaving, List.reverse_cons]
      exact h.nested.concat (h.fits_leave hstack)
    · rw [hcalls]
      exact hrest
    · rw [hcalls]
      exact hpop
    · rw [hcalls]
      exact hstacked

/-- Where a step ends the walk, the calls are nested, and nothing is open if the walk completes. -/
theorem Paired.halt {walker : Walker} {visitor : Visitor σ ε} {machine : Machine σ}
    {run : Run σ ε} (h : Paired machine) (hhalt : Halts walker visitor machine run) :
    Nested run.calls ∧ (run.result = .ok .completed → openCalls run.calls = []) := by
  cases hhalt with
  | completed hstack =>
    refine ⟨h.nested, fun _ => ?_⟩
    -- an open call has its `leave` frame on the stack, and the stack is empty
    have hframes := h.frames
    rw [hstack] at hframes
    exact List.map_eq_nil_iff.1 hframes.symm
  | fault hstack hfault => exact ⟨h.nested, nofun⟩
  | @enterFailed node edge rest found error hstack hfound hanswer =>
    refine ⟨?_, nofun⟩
    rw [Progress.calls_failed, calls_entering, List.reverse_cons]
    exact h.nested.concat (h.fits_enter node edge found)
  | @enterStopped node edge rest found hstack hfound hanswer =>
    refine ⟨?_, nofun⟩
    rw [Progress.calls_stopped, Progress.calls_countNode, calls_entering, List.reverse_cons]
    exact h.nested.concat (h.fits_enter node edge found)
  | leaveFailed hstack hanswer =>
    refine ⟨?_, nofun⟩
    rw [Progress.calls_failed, calls_leaving, List.reverse_cons]
    exact h.nested.concat (h.fits_leave hstack)
  | leaveStopped hstack hanswer =>
    refine ⟨?_, nofun⟩
    rw [Progress.calls_stopped, calls_leaving, List.reverse_cons]
    exact h.nested.concat (h.fits_leave hstack)

end Machine

/-! ## The calls of a walk -/

/-- In every walk each call fits the calls that are open when it is made: a node is entered below the open
nodes, and only the node entered last is left, with the node and the context of its entry. A walk that
completes leaves nothing open and leaves as many nodes as it enters. -/
theorem Walker.walk_calls_nested (walker : Walker) (visitor : Visitor σ ε) (root : Json)
    (state : σ) :
    (∀ (n : Nat) (next : Call), (walker.walk visitor root state).calls[n]? = some next →
      next.Fits (openCalls ((walker.walk visitor root state).calls.take n))) ∧
    ((walker.walk visitor root state).result = .ok .completed →
      openCalls (walker.walk visitor root state).calls = [] ∧
      (walker.walk visitor root state).calls.countP (fun call => call.phase = .enter) =
        (walker.walk visitor root state).calls.countP (fun call => call.phase = .leave)) := by
  have hwalk : Nested (walker.walk visitor root state).calls ∧
      ((walker.walk visitor root state).result = .ok .completed →
        openCalls (walker.walk visitor root state).calls = []) := by
    rw [walk]
    split
    · exact ⟨nested_nil, fun _ => rfl⟩
    · exact Machine.run_of_invariant (fun _ _ h hstep => Machine.Paired.step h hstep)
        (fun _ _ h hhalt => Machine.Paired.halt h hhalt) _ (Machine.paired_start root state)
  refine ⟨hwalk.1, fun hresult => ⟨hwalk.2 hresult, ?_⟩⟩
  rw [hwalk.1.countP_enter, hwalk.2 hresult]
  rfl

end SyntaxWalk
