import SyntaxWalk.Walk.Machine

/-!
# What one step of the machine can do

`Machine.Steps` lists the two ways in which a walk goes on and `Machine.Halts` the six ways in which it
ends, each with everything the step has found out: the frame it took, what the examination said and what
the visitor answered. There are no others (`step_cases`), so that a statement about walks is proved by
going through these cases and never through the definition of a step.

`run_of_invariant` is the induction over a run: what holds of the first machine and is kept by every step
holds of the machine whose step ends the walk. `Machine.Makes` is the call of a step, and what an invariant
gives of it holds of all calls of a run (`forall_calls_of_invariant`). Two runs are compared by a relation
that their steps keep (`run_of_simulation`, `run_of_lockstep`).
-/

set_option autoImplicit false

namespace SyntaxWalk

universe u v

variable {σ : Type u} {ε : Type v}

/-! ## What the parts of a step do to the progress -/

namespace Progress

@[simp] theorem fst_call (progress : Progress σ) (visitor : Visitor σ ε) (phase : Phase)
    (node : Json) (context : Context) :
    (progress.call visitor phase node context).1 =
      (visitor.hook phase node context progress.state).1 := rfl

@[simp] theorem calls_call (progress : Progress σ) (visitor : Visitor σ ε) (phase : Phase)
    (node : Json) (context : Context) :
    (progress.call visitor phase node context).2.calls =
      ⟨phase, node, context⟩ :: progress.calls := rfl

@[simp] theorem calls_countNode (progress : Progress σ) :
    progress.countNode.calls = progress.calls := rfl

@[simp] theorem calls_noteUnknown (progress : Progress σ) (found : Walker.Finding) (place : Place) :
    (progress.noteUnknown found place).calls = progress.calls := by
  unfold noteUnknown
  split
  · rfl
  · rfl

@[simp] theorem state_noteUnknown (progress : Progress σ) (found : Walker.Finding) (place : Place) :
    (progress.noteUnknown found place).state = progress.state := by
  unfold noteUnknown
  split
  · rfl
  · rfl

@[simp] theorem calls_completed (progress : Progress σ) :
    (progress.completed : Run σ ε).calls = progress.calls.reverse := rfl

@[simp] theorem calls_stopped (progress : Progress σ) (phase : Phase) :
    (progress.stopped phase : Run σ ε).calls = progress.calls.reverse := rfl

@[simp] theorem calls_failed (progress : Progress σ) (failure : Failure ε) :
    (progress.failed failure).calls = progress.calls.reverse := rfl

end Progress

namespace Machine

/-! ## The cases of a step -/

/-- The context of a node that is entered now. -/
def contextFor (machine : Machine σ) (edge : Option Edge) (found : Walker.Finding) : Context :=
  ⟨machine.ancestors, edge, found.nodeType⟩

/-- The progress after the `enter` hook was called for a node. -/
def entering (machine : Machine σ) (visitor : Visitor σ ε) (node : Json) (edge : Option Edge)
    (found : Walker.Finding) : Progress σ :=
  ((machine.progress.noteUnknown found ⟨edge, machine.steps⟩).call visitor .enter node
    (machine.contextFor edge found)).2

/-- The context of a node that is left now. -/
def closingContext (machine : Machine σ) (nodeType : String) (edge : Option Edge) : Context :=
  ⟨machine.ancestors.pop, edge, nodeType⟩

/-- The progress after the `leave` hook was called for a node. -/
def leaving (machine : Machine σ) (visitor : Visitor σ ε) (node : Json) (nodeType : String)
    (edge : Option Edge) : Progress σ :=
  (machine.progress.call visitor .leave node (machine.closingContext nodeType edge)).2

@[simp] theorem calls_entering (machine : Machine σ) (visitor : Visitor σ ε) (node : Json)
    (edge : Option Edge) (found : Walker.Finding) :
    (machine.entering visitor node edge found).calls =
      ⟨.enter, node, machine.contextFor edge found⟩ :: machine.progress.calls := by
  rw [entering, Progress.calls_call, Progress.calls_noteUnknown]

@[simp] theorem calls_leaving (machine : Machine σ) (visitor : Visitor σ ε) (node : Json)
    (nodeType : String) (edge : Option Edge) :
    (machine.leaving visitor node nodeType edge).calls =
      ⟨.leave, node, machine.closingContext nodeType edge⟩ :: machine.progress.calls := rfl

/-- The steps after which there is more to do. -/
inductive Steps (walker : Walker) (visitor : Visitor σ ε) (machine : Machine σ) :
    Machine σ → Prop where
  /-- A node passes the examination and is entered. -/
  | enter {node : Json} {edge : Option Edge} {rest : List Frame} {found : Walker.Finding}
      {action : Action} (hstack : machine.stack = .enter node edge :: rest)
      (hfound : walker.examine node machine.ancestors.depth ⟨edge, machine.steps⟩ = .ok found)
      (hanswer : (visitor.enter node (machine.contextFor edge found) machine.progress.state).1 =
        .ok action)
      (haction : action ≠ .stop) :
      Steps walker visitor machine
        (machine.descend (machine.entering visitor node edge found).countNode node edge found
          action rest)
  /-- A node is left. -/
  | leave {node : Json} {nodeType : String} {edge : Option Edge} {rest : List Frame}
      {action : Action} (hstack : machine.stack = .leave node nodeType edge :: rest)
      (hanswer : (visitor.leave node (machine.closingContext nodeType edge)
        machine.progress.state).1 = .ok action)
      (haction : action ≠ .stop) :
      Steps walker visitor machine
        ⟨rest, machine.ancestors.pop, machine.steps.tail,
          machine.leaving visitor node nodeType edge⟩

/-- The steps that end the walk. -/
inductive Halts (walker : Walker) (visitor : Visitor σ ε) (machine : Machine σ) :
    Run σ ε → Prop where
  /-- Nothing is pending. -/
  | completed (hstack : machine.stack = []) :
      Halts walker visitor machine machine.progress.completed
  /-- A node does not pass the examination. -/
  | fault {node : Json} {edge : Option Edge} {rest : List Frame} {fault : Fault}
      (hstack : machine.stack = .enter node edge :: rest)
      (hfault : walker.examine node machine.ancestors.depth ⟨edge, machine.steps⟩ =
        .error fault) :
      Halts walker visitor machine (machine.progress.failed (.fault fault))
  /-- The visitor fails at the entry of a node. -/
  | enterFailed {node : Json} {edge : Option Edge} {rest : List Frame}
      {found : Walker.Finding} {error : ε} (hstack : machine.stack = .enter node edge :: rest)
      (hfound : walker.examine node machine.ancestors.depth ⟨edge, machine.steps⟩ = .ok found)
      (hanswer : (visitor.enter node (machine.contextFor edge found) machine.progress.state).1 =
        .error error) :
      Halts walker visitor machine
        ((machine.entering visitor node edge found).failed (.visitor error))
  /-- The visitor stops at the entry of a node. -/
  | enterStopped {node : Json} {edge : Option Edge} {rest : List Frame}
      {found : Walker.Finding} (hstack : machine.stack = .enter node edge :: rest)
      (hfound : walker.examine node machine.ancestors.depth ⟨edge, machine.steps⟩ = .ok found)
      (hanswer : (visitor.enter node (machine.contextFor edge found) machine.progress.state).1 =
        .ok .stop) :
      Halts walker visitor machine
        ((machine.entering visitor node edge found).countNode.stopped .enter)
  /-- The visitor fails when a node is left. -/
  | leaveFailed {node : Json} {nodeType : String} {edge : Option Edge} {rest : List Frame}
      {error : ε} (hstack : machine.stack = .leave node nodeType edge :: rest)
      (hanswer : (visitor.leave node (machine.closingContext nodeType edge)
        machine.progress.state).1 = .error error) :
      Halts walker visitor machine
        ((machine.leaving visitor node nodeType edge).failed (.visitor error))
  /-- The visitor stops when a node is left. -/
  | leaveStopped {node : Json} {nodeType : String} {edge : Option Edge} {rest : List Frame}
      (hstack : machine.stack = .leave node nodeType edge :: rest)
      (hanswer : (visitor.leave node (machine.closingContext nodeType edge)
        machine.progress.state).1 = .ok .stop) :
      Halts walker visitor machine ((machine.leaving visitor node nodeType edge).stopped .leave)

/-- A node that passes is entered, and the answer of the visitor decides how the walk goes on. -/
theorem enterNode_of_examine {walker : Walker} {visitor : Visitor σ ε} {machine : Machine σ}
    {node : Json} {edge : Option Edge} {rest : List Frame} {found : Walker.Finding}
    (hfound : walker.examine node machine.ancestors.depth ⟨edge, machine.steps⟩ = .ok found) :
    machine.enterNode walker visitor node edge rest =
      match (visitor.enter node (machine.contextFor edge found) machine.progress.state).1 with
      | .error error => .halt ((machine.entering visitor node edge found).failed (.visitor error))
      | .ok .stop => .halt ((machine.entering visitor node edge found).countNode.stopped .enter)
      | .ok action =>
        .next (machine.descend (machine.entering visitor node edge found).countNode node edge
          found action rest) := by
  have hanswer : (visitor.enter node (machine.contextFor edge found) machine.progress.state).1 =
      ((machine.progress.noteUnknown found ⟨edge, machine.steps⟩).call visitor .enter node
        (machine.contextFor edge found)).1 := by
    rw [Progress.fst_call, Progress.state_noteUnknown]
    rfl
  rw [enterNode, hfound, hanswer, entering, contextFor]
  dsimp only
  -- the two sides split the outcome of the call in different ways, and agree on each outcome
  generalize (machine.progress.noteUnknown found ⟨edge, machine.steps⟩).call visitor .enter node
    ⟨machine.ancestors, edge, found.nodeType⟩ = result
  rcases result with ⟨error | action, progress⟩
  · rfl
  · cases action <;> rfl

/-- A node is left, and the answer of the visitor decides how the walk goes on. -/
theorem leaveNode_eq (visitor : Visitor σ ε) (machine : Machine σ) (node : Json)
    (nodeType : String) (edge : Option Edge) (rest : List Frame) :
    machine.leaveNode visitor node nodeType edge rest =
      match (visitor.leave node (machine.closingContext nodeType edge)
        machine.progress.state).1 with
      | .error error => .halt ((machine.leaving visitor node nodeType edge).failed (.visitor error))
      | .ok .stop => .halt ((machine.leaving visitor node nodeType edge).stopped .leave)
      | .ok _ =>
        .next ⟨rest, machine.ancestors.pop, machine.steps.tail,
          machine.leaving visitor node nodeType edge⟩ := by
  have hanswer : (visitor.leave node (machine.closingContext nodeType edge)
      machine.progress.state).1 = (machine.progress.call visitor .leave node
        (machine.closingContext nodeType edge)).1 := rfl
  rw [leaveNode, hanswer, leaving, closingContext]
  generalize machine.progress.call visitor .leave node
    ⟨machine.ancestors.pop, edge, nodeType⟩ = result
  rcases result with ⟨error | action, progress⟩
  · rfl
  · cases action <;> rfl

/-- Every step is one of the two ways to go on or one of the six ways to end. -/
theorem step_cases (walker : Walker) (visitor : Visitor σ ε) (machine : Machine σ) :
    (∃ next, machine.step walker visitor = .next next ∧ Steps walker visitor machine next) ∨
      ∃ run, machine.step walker visitor = .halt run ∧ Halts walker visitor machine run := by
  -- a step tests the stack, then the node, then the answer of the visitor
  cases hstack : machine.stack with
  | nil => exact Or.inr ⟨_, by rw [step, hstack], .completed hstack⟩
  | cons frame rest =>
    cases frame with
    | enter node edge =>
      have hstep : machine.step walker visitor =
          machine.enterNode walker visitor node edge rest := by rw [step, hstack]
      cases hfound : walker.examine node machine.ancestors.depth ⟨edge, machine.steps⟩ with
      | error fault =>
        exact Or.inr ⟨_, by rw [hstep, enterNode, hfound], .fault hstack hfound⟩
      | ok found =>
        rw [hstep, enterNode_of_examine hfound]
        cases hanswer : (visitor.enter node (machine.contextFor edge found)
            machine.progress.state).1 with
        | error error => exact Or.inr ⟨_, rfl, .enterFailed hstack hfound hanswer⟩
        | ok action =>
          cases action with
          | proceed => exact Or.inl ⟨_, rfl, .enter hstack hfound hanswer (by decide)⟩
          | skip => exact Or.inl ⟨_, rfl, .enter hstack hfound hanswer (by decide)⟩
          | stop => exact Or.inr ⟨_, rfl, .enterStopped hstack hfound hanswer⟩
    | leave node nodeType edge =>
      have hstep : machine.step walker visitor =
          machine.leaveNode visitor node nodeType edge rest := by rw [step, hstack]
      rw [hstep, leaveNode_eq]
      cases hanswer : (visitor.leave node (machine.closingContext nodeType edge)
          machine.progress.state).1 with
      | error error => exact Or.inr ⟨_, rfl, .leaveFailed hstack hanswer⟩
      | ok action =>
        cases action with
        | proceed => exact Or.inl ⟨_, rfl, .leave hstack hanswer (by decide)⟩
        | skip => exact Or.inl ⟨_, rfl, .leave hstack hanswer (by decide)⟩
        | stop => exact Or.inr ⟨_, rfl, .leaveStopped hstack hanswer⟩

/-- The ways to go on are steps of the machine. -/
theorem Steps.step_eq {walker : Walker} {visitor : Visitor σ ε} {machine next : Machine σ}
    (h : Steps walker visitor machine next) : machine.step walker visitor = .next next := by
  cases h with
  | @enter node edge rest found action hstack hfound hanswer haction =>
    rw [step, hstack]
    dsimp only
    rw [enterNode_of_examine hfound, hanswer]
    cases action with
    | stop => exact absurd rfl haction
    | proceed => rfl
    | skip => rfl
  | @leave node nodeType edge rest action hstack hanswer haction =>
    rw [step, hstack]
    dsimp only
    rw [leaveNode_eq, hanswer]
    cases action with
    | stop => exact absurd rfl haction
    | proceed => rfl
    | skip => rfl

/-- The ways to end are steps of the machine. -/
theorem Halts.step_eq {walker : Walker} {visitor : Visitor σ ε} {machine : Machine σ}
    {run : Run σ ε} (h : Halts walker visitor machine run) :
    machine.step walker visitor = .halt run := by
  cases h with
  | completed hstack => rw [step, hstack]
  | fault hstack hfault =>
    rw [step, hstack]
    dsimp only
    rw [enterNode, hfault]
  | enterFailed hstack hfound hanswer =>
    rw [step, hstack]
    dsimp only
    rw [enterNode_of_examine hfound, hanswer]
  | enterStopped hstack hfound hanswer =>
    rw [step, hstack]
    dsimp only
    rw [enterNode_of_examine hfound, hanswer]
  | leaveFailed hstack hanswer =>
    rw [step, hstack]
    dsimp only
    rw [leaveNode_eq, hanswer]
  | leaveStopped hstack hanswer =>
    rw [step, hstack]
    dsimp only
    rw [leaveNode_eq, hanswer]

/-! ## Runs -/

/-- A run goes on from the machine after its first step. -/
theorem run_of_next {walker : Walker} {visitor : Visitor σ ε} {machine next : Machine σ}
    (h : machine.step walker visitor = .next next) :
    machine.run walker visitor = next.run walker visitor := by
  rw [run]
  split
  · rename_i hstep
    rw [h] at hstep
    cases hstep
  · rename_i hstep
    rw [h] at hstep
    cases hstep
    rfl

/-- A run is over when its first step ends the walk. -/
theorem run_of_halt {walker : Walker} {visitor : Visitor σ ε} {machine : Machine σ}
    {run : Run σ ε} (h : machine.step walker visitor = .halt run) :
    machine.run walker visitor = run := by
  rw [Machine.run]
  split
  · rename_i hstep
    rw [h] at hstep
    cases hstep
    rfl
  · rename_i hstep
    rw [h] at hstep
    cases hstep

/-- An invariant of the first machine that every step keeps, and that gives a property of what is left
behind wherever a step ends the walk, gives this property of the run. -/
theorem run_of_invariant {walker : Walker} {visitor : Visitor σ ε} {inv : Machine σ → Prop}
    {post : Run σ ε → Prop}
    (hstep : ∀ machine next, inv machine → Steps walker visitor machine next → inv next)
    (hhalt : ∀ machine run, inv machine → Halts walker visitor machine run → post run) :
    ∀ machine : Machine σ, inv machine → post (machine.run walker visitor) := by
  intro machine
  -- the pending work decreases with every step
  induction hwork : walker.stackWork machine.stack using Nat.strongRecOn generalizing machine with
  | ind work ih =>
    intro hinv
    rcases step_cases walker visitor machine with ⟨next, hnext, hsteps⟩ | ⟨run, hrun, hhalts⟩
    · rw [run_of_next hnext]
      have hlt := stackWork_step_lt hnext
      rw [hwork] at hlt
      exact ih _ hlt next rfl (hstep machine next hinv hsteps)
    · rw [run_of_halt hrun]
      exact hhalt machine run hinv hhalts

/-! ## The calls of a run -/

/-- The call that the next step makes for the frame on top of the stack. -/
inductive Makes (walker : Walker) (machine : Machine σ) : Call → Prop where
  | enter {node : Json} {edge : Option Edge} {rest : List Frame} {found : Walker.Finding}
      (hstack : machine.stack = .enter node edge :: rest)
      (hfound : walker.examine node machine.ancestors.depth ⟨edge, machine.steps⟩ = .ok found) :
      Makes walker machine ⟨.enter, node, machine.contextFor edge found⟩
  | leave {node : Json} {nodeType : String} {edge : Option Edge} {rest : List Frame}
      (hstack : machine.stack = .leave node nodeType edge :: rest) :
      Makes walker machine ⟨.leave, node, machine.closingContext nodeType edge⟩

/-- A step after which there is more to do makes one call. -/
theorem Steps.calls_eq {walker : Walker} {visitor : Visitor σ ε} {machine next : Machine σ}
    (h : Steps walker visitor machine next) :
    ∃ call, Makes walker machine call ∧ next.progress.calls = call :: machine.progress.calls := by
  cases h with
  | enter hstack hfound hanswer haction =>
    exact ⟨_, .enter hstack hfound, machine.calls_entering visitor _ _ _⟩
  | leave hstack hanswer haction =>
    exact ⟨_, .leave hstack, machine.calls_leaving visitor _ _ _⟩

/-- The step that ends a walk makes one call, or none. -/
theorem Halts.calls_eq {walker : Walker} {visitor : Visitor σ ε} {machine : Machine σ}
    {run : Run σ ε} (h : Halts walker visitor machine run) :
    run.calls = machine.progress.calls.reverse ∨
      ∃ call, Makes walker machine call ∧ run.calls = (call :: machine.progress.calls).reverse := by
  cases h with
  | completed hstack => exact Or.inl rfl
  | fault hstack hfault => exact Or.inl rfl
  | enterFailed hstack hfound hanswer =>
    refine Or.inr ⟨_, .enter hstack hfound, ?_⟩
    rw [Progress.calls_failed, calls_entering]
  | enterStopped hstack hfound hanswer =>
    refine Or.inr ⟨_, .enter hstack hfound, ?_⟩
    rw [Progress.calls_stopped, Progress.calls_countNode, calls_entering]
  | leaveFailed hstack hanswer =>
    refine Or.inr ⟨_, .leave hstack, ?_⟩
    rw [Progress.calls_failed, calls_leaving]
  | leaveStopped hstack hanswer =>
    refine Or.inr ⟨_, .leave hstack, ?_⟩
    rw [Progress.calls_stopped, calls_leaving]

/-- What an invariant gives of each call when it is made holds of all calls of a run. -/
theorem forall_calls_of_invariant {walker : Walker} {visitor : Visitor σ ε}
    {inv : Machine σ → Prop} {good : Call → Prop}
    (hstep : ∀ machine next, inv machine → Steps walker visitor machine next → inv next)
    (hgood : ∀ machine call, inv machine → Makes walker machine call → good call)
    (machine : Machine σ) (hinv : inv machine)
    (hcalls : ∀ call ∈ machine.progress.calls, good call) :
    ∀ call ∈ (machine.run walker visitor).calls, good call := by
  -- the invariant is carried together with the calls made so far
  refine @run_of_invariant _ _ walker visitor
    (fun machine => inv machine ∧ ∀ call ∈ machine.progress.calls, good call)
    (fun run => ∀ call ∈ run.calls, good call) ?_ ?_ machine ⟨hinv, hcalls⟩
  · rintro machine next ⟨hinv, hcalls⟩ hsteps
    obtain ⟨call, hmakes, hnext⟩ := hsteps.calls_eq
    rw [hnext, List.forall_mem_cons]
    exact ⟨hstep machine next hinv hsteps, hgood machine call hinv hmakes, hcalls⟩
  · rintro machine run ⟨hinv, hcalls⟩ hhalts
    rcases hhalts.calls_eq with hrun | ⟨last, hmakes, hrun⟩
    · rw [hrun]
      exact fun call hcall => hcalls call (List.mem_reverse.1 hcall)
    · rw [hrun]
      have hall := List.forall_mem_cons.2 ⟨hgood machine last hinv hmakes, hcalls⟩
      exact fun call hcall => hall call (List.mem_reverse.1 hcall)

/-- The calls made before a run are the first calls of what it leaves behind. -/
theorem calls_prefix_run (walker : Walker) (visitor : Visitor σ ε) (machine : Machine σ) :
    machine.progress.calls.reverse <+: (machine.run walker visitor).calls := by
  -- calls are only ever put in front of the earlier ones
  refine @run_of_invariant _ _ walker visitor
    (fun later => machine.progress.calls <:+ later.progress.calls)
    (fun run => machine.progress.calls.reverse <+: run.calls) ?_ ?_ machine (List.suffix_refl _)
  · intro later next hsuffix hsteps
    obtain ⟨call, -, hnext⟩ := hsteps.calls_eq
    rw [hnext]
    exact hsuffix.trans (List.suffix_cons _ _)
  · intro later run hsuffix hhalts
    rcases hhalts.calls_eq with hrun | ⟨call, -, hrun⟩
    · rw [hrun, List.reverse_prefix]
      exact hsuffix
    · rw [hrun, List.reverse_prefix]
      exact hsuffix.trans (List.suffix_cons _ _)

/-! ## Two runs -/

/-- Two machines that are related stay related as long as the second can make every step of the first. What
is then shown where a step ends the first walk holds of the two runs. -/
theorem run_of_simulation {τ : Type u} {δ : Type v} {walker walker' : Walker}
    {visitor : Visitor σ ε} {visitor' : Visitor τ δ} {rel : Machine σ → Machine τ → Prop}
    {post : Run σ ε → Run τ δ → Prop}
    (hstep : ∀ machine machine' next, rel machine machine' → Steps walker visitor machine next →
      ∃ next', Steps walker' visitor' machine' next' ∧ rel next next')
    (hhalt : ∀ machine machine' run, rel machine machine' → Halts walker visitor machine run →
      post run (machine'.run walker' visitor'))
    (machine : Machine σ) (machine' : Machine τ) (h : rel machine machine') :
    post (machine.run walker visitor) (machine'.run walker' visitor') := by
  -- the second run is fixed; what varies is the machine from which it goes on
  refine @run_of_invariant _ _ walker visitor
    (fun m => ∃ m', rel m m' ∧ m'.run walker' visitor' = machine'.run walker' visitor')
    (fun run => post run (machine'.run walker' visitor')) ?_ ?_ machine ⟨machine', h, rfl⟩
  · rintro m next ⟨m', hrel, hrun⟩ hsteps
    obtain ⟨next', hsteps', hnext⟩ := hstep m m' next hrel hsteps
    exact ⟨next', hnext, by rw [← hrun, run_of_next hsteps'.step_eq]⟩
  · rintro m run ⟨m', hrel, hrun⟩ hhalts
    rw [← hrun]
    exact hhalt m m' run hrel hhalts

/-- Two machines that are related go on and end together; what is shown where both walks end holds of the
two runs. -/
theorem run_of_lockstep {τ : Type u} {δ : Type v} {walker walker' : Walker}
    {visitor : Visitor σ ε} {visitor' : Visitor τ δ} {rel : Machine σ → Machine τ → Prop}
    {post : Run σ ε → Run τ δ → Prop}
    (hstep : ∀ machine machine' next, rel machine machine' → Steps walker visitor machine next →
      ∃ next', Steps walker' visitor' machine' next' ∧ rel next next')
    (hhalt : ∀ machine machine' run, rel machine machine' → Halts walker visitor machine run →
      ∃ run', Halts walker' visitor' machine' run' ∧ post run run')
    (machine : Machine σ) (machine' : Machine τ) (h : rel machine machine') :
    post (machine.run walker visitor) (machine'.run walker' visitor') := by
  refine run_of_simulation hstep (fun m m' run hrel hhalts => ?_) machine machine' h
  obtain ⟨run', hhalts', hpost⟩ := hhalt m m' run hrel hhalts
  rw [run_of_halt hhalts'.step_eq]
  exact hpost

end Machine

end SyntaxWalk
