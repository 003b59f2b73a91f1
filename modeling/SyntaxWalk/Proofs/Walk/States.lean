import SyntaxWalk.Proofs.Walk.Steps

/-!
# The state of a visitor

A walk hands the state of its visitor from hook to hook and does nothing else with it. Two visitors that
give the same answers as long as their states are related (`Visitor.Mirrors`) therefore make the same walk:
the two machines differ in the state only (`Machine.withState`), and so do the two runs
(`walk_of_mirrors`). And the final state of a walk is what the hooks make of the first state, called one
after the other (`state_walk`).
-/

set_option autoImplicit false

namespace SyntaxWalk

universe u v

variable {σ τ : Type u} {ε : Type v}

/-- The second visitor answers as the first does whenever the states of the two are related, and keeps them
related. -/
def Visitor.Mirrors (rel : σ → τ → Prop) (visitor : Visitor σ ε) (other : Visitor τ ε) : Prop :=
  ∀ (phase : Phase) (node : Json) (context : Context) (state : σ) (twin : τ), rel state twin →
    (other.hook phase node context twin).1 = (visitor.hook phase node context state).1 ∧
      rel (visitor.hook phase node context state).2 (other.hook phase node context twin).2

/-! ## Replacing the state -/

/-- What was done, with another state. -/
def Progress.withState (progress : Progress σ) (state : τ) : Progress τ :=
  ⟨state, progress.calls, progress.logs, progress.entered⟩

/-- What a walk leaves behind, with another state. -/
def Run.withState (run : Run σ ε) (state : τ) : Run τ ε :=
  ⟨run.result, state, run.calls, run.logs⟩

namespace Machine

/-- The machine with another state of the visitor. -/
def withState (machine : Machine σ) (state : τ) : Machine τ :=
  ⟨machine.stack, machine.ancestors, machine.steps, machine.progress.withState state⟩

section Mirrors

variable {walker : Walker} {visitor : Visitor σ ε} {other : Visitor τ ε} {rel : σ → τ → Prop}
  {machine : Machine σ} {twin : τ}

theorem state_entering (machine : Machine σ) (visitor : Visitor σ ε) (node : Json)
    (edge : Option Edge) (found : Walker.Finding) :
    (machine.entering visitor node edge found).state =
      (visitor.enter node (machine.contextFor edge found) machine.progress.state).2 := by
  have hstate := machine.progress.state_noteUnknown found ⟨edge, machine.steps⟩
  show (visitor.enter node (machine.contextFor edge found)
    (machine.progress.noteUnknown found ⟨edge, machine.steps⟩).state).2 = _
  rw [hstate]

/-- Entering a node with the related state differs in the state only, and keeps the states related. -/
theorem entering_mirror (h : visitor.Mirrors rel other) (hrel : rel machine.progress.state twin)
    (node : Json) (edge : Option Edge) (found : Walker.Finding) :
    ∃ last, rel (machine.entering visitor node edge found).state last ∧
      (machine.withState twin).entering other node edge found =
        (machine.entering visitor node edge found).withState last := by
  refine ⟨(other.enter node (machine.contextFor edge found) twin).2, ?_, ?_⟩
  · rw [state_entering]
    exact (h .enter node (machine.contextFor edge found) _ _ hrel).2
  · unfold entering Progress.noteUnknown
    split
    · rfl
    · rfl

/-- The machine with the related state makes every step. -/
theorem Steps.mirror (h : visitor.Mirrors rel other) (hrel : rel machine.progress.state twin)
    {next : Machine σ} (hsteps : Steps walker visitor machine next) :
    ∃ last, rel next.progress.state last ∧
      Steps walker other (machine.withState twin) (next.withState last) := by
  cases hsteps with
  | @enter node edge rest found action hstack hfound hanswer haction =>
    have hsame := (h .enter node (machine.contextFor edge found) _ _ hrel).1
    obtain ⟨last, hlast, hentering⟩ := entering_mirror h hrel node edge found
    have hnext : (machine.descend (machine.entering visitor node edge found).countNode node edge
        found action rest).withState last =
        (machine.withState twin).descend ((machine.withState twin).entering other node edge
          found).countNode node edge found action rest := by
      rw [hentering]
      rfl
    refine ⟨last, hlast, ?_⟩
    rw [hnext]
    exact .enter hstack hfound (hsame.trans hanswer) haction
  | @leave node nodeType edge rest action hstack hanswer haction =>
    obtain ⟨hsame, hlast⟩ := h .leave node (machine.closingContext nodeType edge) _ _ hrel
    exact ⟨_, hlast, .leave hstack (hsame.trans hanswer) haction⟩

/-- The walk with the related state ends when the other does, and in the same way. -/
theorem Halts.mirror (h : visitor.Mirrors rel other) (hrel : rel machine.progress.state twin)
    {run : Run σ ε} (hhalts : Halts walker visitor machine run) :
    ∃ last, rel run.state last ∧ Halts walker other (machine.withState twin) (run.withState last) := by
  cases hhalts with
  | completed hstack => exact ⟨twin, hrel, .completed hstack⟩
  | fault hstack hfault => exact ⟨twin, hrel, .fault hstack hfault⟩
  | @enterFailed node edge rest found error hstack hfound hanswer =>
    have hsame := (h .enter node (machine.contextFor edge found) _ _ hrel).1
    obtain ⟨last, hlast, hentering⟩ := entering_mirror h hrel node edge found
    have hrun : ((machine.entering visitor node edge found).failed (.visitor error)).withState last =
        ((machine.withState twin).entering other node edge found).failed (.visitor error) := by
      rw [hentering]
      rfl
    refine ⟨last, hlast, ?_⟩
    rw [hrun]
    exact .enterFailed hstack hfound (hsame.trans hanswer)
  | @enterStopped node edge rest found hstack hfound hanswer =>
    have hsame := (h .enter node (machine.contextFor edge found) _ _ hrel).1
    obtain ⟨last, hlast, hentering⟩ := entering_mirror h hrel node edge found
    have hrun : ((machine.entering visitor node edge found).countNode.stopped .enter :
          Run σ ε).withState last =
        ((machine.withState twin).entering other node edge found).countNode.stopped .enter := by
      rw [hentering]
      rfl
    refine ⟨last, hlast, ?_⟩
    rw [hrun]
    exact .enterStopped hstack hfound (hsame.trans hanswer)
  | @leaveFailed node nodeType edge rest error hstack hanswer =>
    obtain ⟨hsame, hlast⟩ := h .leave node (machine.closingContext nodeType edge) _ _ hrel
    exact ⟨_, hlast, .leaveFailed hstack (hsame.trans hanswer)⟩
  | @leaveStopped node nodeType edge rest hstack hanswer =>
    obtain ⟨hsame, hlast⟩ := h .leave node (machine.closingContext nodeType edge) _ _ hrel
    exact ⟨_, hlast, .leaveStopped hstack (hsame.trans hanswer)⟩

end Mirrors

end Machine

/-- A visitor that mirrors another makes the same walk, up to the state. -/
theorem Walker.walk_of_mirrors (walker : Walker) {visitor : Visitor σ ε} {other : Visitor τ ε}
    {rel : σ → τ → Prop} (h : visitor.Mirrors rel other) (root : Json) {state : σ} {twin : τ}
    (hrel : rel state twin) :
    ∃ last, rel (walker.walk visitor root state).state last ∧
      walker.walk other root twin = (walker.walk visitor root state).withState last := by
  unfold walk
  split
  · exact ⟨twin, hrel, rfl⟩
  · refine @Machine.run_of_lockstep _ _ _ _ walker walker visitor other
      (fun m m' => ∃ t, rel m.progress.state t ∧ m' = m.withState t)
      (fun run run' => ∃ t, rel run.state t ∧ run' = run.withState t) ?_ ?_ _ _ ⟨twin, hrel, rfl⟩
    · rintro m _ next ⟨t, ht, rfl⟩ hsteps
      obtain ⟨last, hlast, hsteps'⟩ := hsteps.mirror h ht
      exact ⟨_, hsteps', last, hlast, rfl⟩
    · rintro m _ run ⟨t, ht, rfl⟩ hhalts
      obtain ⟨last, hlast, hhalts'⟩ := hhalts.mirror h ht
      exact ⟨_, hhalts', last, hlast, rfl⟩

/-! ## The state after the calls -/

/-- What the hook of a call makes of a state. -/
def Visitor.after (visitor : Visitor σ ε) (state : σ) (call : Call) : σ :=
  (visitor.hook call.phase call.node call.context state).2

namespace Machine

variable {walker : Walker} {visitor : Visitor σ ε} {machine : Machine σ}

theorem Steps.state_eq {next : Machine σ} (h : Steps walker visitor machine next) :
    ∃ call, next.progress.calls = call :: machine.progress.calls ∧
      next.progress.state = visitor.after machine.progress.state call := by
  cases h with
  | enter hstack hfound hanswer haction =>
    exact ⟨_, machine.calls_entering visitor _ _ _, machine.state_entering visitor _ _ _⟩
  | leave hstack hanswer haction => exact ⟨_, machine.calls_leaving visitor _ _ _, rfl⟩

/-- The step that ends a walk makes no call and leaves the state alone, or makes of it what the hook of its
call makes of it. -/
theorem Halts.state_eq {run : Run σ ε} (h : Halts walker visitor machine run) :
    run.calls = machine.progress.calls.reverse ∧ run.state = machine.progress.state ∨
      ∃ call, run.calls = machine.progress.calls.reverse ++ [call] ∧
        run.state = visitor.after machine.progress.state call := by
  cases h with
  | completed hstack => exact Or.inl ⟨rfl, rfl⟩
  | fault hstack hfault => exact Or.inl ⟨rfl, rfl⟩
  | @enterFailed node edge rest found error hstack hfound hanswer =>
    refine Or.inr ⟨⟨.enter, node, machine.contextFor edge found⟩, ?_,
      machine.state_entering visitor node edge found⟩
    rw [Progress.calls_failed, calls_entering, List.reverse_cons]
  | @enterStopped node edge rest found hstack hfound hanswer =>
    refine Or.inr ⟨⟨.enter, node, machine.contextFor edge found⟩, ?_,
      machine.state_entering visitor node edge found⟩
    rw [Progress.calls_stopped, Progress.calls_countNode, calls_entering, List.reverse_cons]
  | @leaveFailed node nodeType edge rest error hstack hanswer =>
    refine Or.inr ⟨⟨.leave, node, machine.closingContext nodeType edge⟩, ?_, rfl⟩
    rw [Progress.calls_failed, calls_leaving, List.reverse_cons]
  | @leaveStopped node nodeType edge rest hstack hanswer =>
    refine Or.inr ⟨⟨.leave, node, machine.closingContext nodeType edge⟩, ?_, rfl⟩
    rw [Progress.calls_stopped, calls_leaving, List.reverse_cons]

end Machine

/-- The final state of a walk is what the hooks of its calls make of the first one. -/
theorem Walker.state_walk (walker : Walker) (visitor : Visitor σ ε) (root : Json) (state : σ) :
    (walker.walk visitor root state).state =
      (walker.walk visitor root state).calls.foldl visitor.after state := by
  unfold walk
  split
  · rfl
  · -- the calls are kept latest first, and the state belongs to those made so far
    refine @Machine.run_of_invariant _ _ walker visitor
      (fun m => m.progress.state = m.progress.calls.reverse.foldl visitor.after state)
      (fun run => run.state = run.calls.foldl visitor.after state) ?_ ?_ _ rfl
    · intro m next hstate hsteps
      obtain ⟨call, hcalls, hnext⟩ := hsteps.state_eq
      rw [hnext, hcalls, List.reverse_cons, List.foldl_append, ← hstate]
      rfl
    · intro m run hstate hhalts
      rcases hhalts.state_eq with ⟨hcalls, hrun⟩ | ⟨call, hcalls, hrun⟩
      · rw [hrun, hcalls, hstate]
      · rw [hrun, hcalls, List.foldl_append, ← hstate]
        rfl

end SyntaxWalk
