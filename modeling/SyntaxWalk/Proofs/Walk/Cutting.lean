import Mathlib
import SyntaxWalk.Proofs.Walk.Relaxation
import SyntaxWalk.Proofs.Walk.States

/-!
# Walks cut short

A visitor is cut at a call if it answers the calls before it as another visitor does and ends the walk there,
with the wish to stop or with an error (`Visitor.CutsAt`). The two machines are then in step up to that call:
they differ in the state of the visitor only (`Steps.withState`). At the call the cut walk halts, whatever the
other one does there and whatever it meets later (`Makes.cut`).

So the cut walk makes the calls up to that one and no others, ends as the last answer says, and warns of no
node that the other walk comes to later (`walk_cut`).
-/

set_option autoImplicit false

namespace SyntaxWalk

universe u v

variable {σ τ : Type u} {ε : Type v}

/-! ## Answers that end a walk -/

/-- The answer of a visitor to a call. -/
def Visitor.answer (visitor : Visitor σ ε) (state : σ) (call : Call) : Except ε Action :=
  (visitor.hook call.phase call.node call.context state).1

/-- The answers that end a walk, each with the result that the walk then has. -/
inductive Ends : Except ε Action → Except (Failure ε) Outcome → Prop where
  /-- The wish to stop. -/
  | stop : Ends (.ok .stop) (.ok .stopped)
  /-- An error, which is handed on as it is. -/
  | error (error : ε) : Ends (.error error) (.error (.visitor error))

/-- The second visitor answers those of the given calls that come before the `k`-th as the first does, and the
`k`-th with the given answer. Each visitor is asked in the state to which the calls before have led it. -/
structure Visitor.CutsAt (visitor : Visitor σ ε) (state : σ) (calls : List Call) (k : Nat)
    (last : Except ε Action) (other : Visitor τ ε) (twin : τ) : Prop where
  same : ∀ i call, i + 1 < k → calls[i]? = some call →
    other.answer ((calls.take i).foldl other.after twin) call =
      visitor.answer ((calls.take i).foldl visitor.after state) call
  last : ∀ call, calls[k - 1]? = some call →
    other.answer ((calls.take (k - 1)).foldl other.after twin) call = last

/-- The warnings of a walk. -/
def Run.warnings (run : Run σ ε) : List Log :=
  run.logs.filter fun entry => entry.level = .warn

theorem Progress.warnings_stopped (progress : Progress σ) (phase : Phase) :
    (progress.stopped phase : Run σ ε).warnings =
      progress.logs.reverse.filter fun entry => entry.level = .warn := by
  simp [Run.warnings, stopped, finish, log, Log.level]

namespace Machine

variable {walker : Walker} {visitor : Visitor σ ε} {other : Visitor τ ε} {machine : Machine σ}
  {call : Call} {twin : τ}

/-! ## One machine, two visitors -/

theorem entering_withState (machine : Machine σ) (visitor : Visitor σ ε) (other : Visitor τ ε)
    (twin : τ) (node : Json) (edge : Option Edge) (found : Walker.Finding) :
    (machine.withState twin).entering other node edge found =
      (machine.entering visitor node edge found).withState
        (other.enter node (machine.contextFor edge found) twin).2 := by
  unfold entering Progress.noteUnknown
  split
  · rfl
  · rfl

/-- A step makes one call only. -/
theorem Makes.unique {first second : Call} (h : Makes walker machine first)
    (h' : Makes walker machine second) : first = second := by
  cases h with
  | enter hstack hfound =>
    cases h' with
    | enter hstack' hfound' =>
      rw [hstack, List.cons.injEq, Frame.enter.injEq] at hstack'
      obtain ⟨⟨rfl, rfl⟩, -⟩ := hstack'
      rw [hfound] at hfound'
      cases hfound'
      rfl
    | leave hstack' =>
      rw [hstack] at hstack'
      cases hstack'
  | leave hstack =>
    cases h' with
    | enter hstack' hfound' =>
      rw [hstack] at hstack'
      cases hstack'
    | leave hstack' =>
      rw [hstack, List.cons.injEq, Frame.leave.injEq] at hstack'
      obtain ⟨⟨rfl, rfl, rfl⟩, -⟩ := hstack'
      rfl

/-- A visitor that gives the same answer to the call of a step makes the same step, up to the state. -/
theorem Steps.withState {next : Machine σ} (h : Steps walker visitor machine next)
    (hmakes : Makes walker machine call)
    (hsame : other.answer twin call = visitor.answer machine.progress.state call) :
    Steps walker other (machine.withState twin) (next.withState (other.after twin call)) := by
  cases h with
  | @enter node edge rest found action hstack hfound hanswer haction =>
    cases hmakes.unique (.enter hstack hfound)
    have hnext : (machine.descend (machine.entering visitor node edge found).countNode node edge
        found action rest).withState (other.enter node (machine.contextFor edge found) twin).2 =
        (machine.withState twin).descend ((machine.withState twin).entering other node edge
          found).countNode node edge found action rest := by
      rw [machine.entering_withState visitor other twin]
      rfl
    have hother : Steps walker other (machine.withState twin) _ :=
      .enter hstack hfound (hsame.trans hanswer) haction
    rwa [← hnext] at hother
  | @leave node nodeType edge rest action hstack hanswer haction =>
    cases hmakes.unique (.leave hstack)
    exact .leave hstack (hsame.trans hanswer) haction

/-! ## The log before a call -/

theorem logs_suffix_entering (machine : Machine σ) (visitor : Visitor σ ε) (node : Json)
    (edge : Option Edge) (found : Walker.Finding) :
    machine.progress.logs <:+ (machine.entering visitor node edge found).logs := by
  unfold entering Progress.noteUnknown
  split
  · exact List.suffix_refl _
  · exact List.suffix_cons _ _

theorem Steps.logs_suffix {next : Machine σ} (h : Steps walker visitor machine next) :
    machine.progress.logs <:+ next.progress.logs := by
  cases h with
  | @enter node edge rest found action hstack hfound hanswer haction =>
    exact machine.logs_suffix_entering visitor node edge found
  | leave hstack hanswer haction => exact List.suffix_refl _

/-- The step that ends a walk only adds to the log. -/
theorem Halts.logs_prefix {run : Run σ ε} (h : Halts walker visitor machine run) :
    machine.progress.logs.reverse <+: run.logs := by
  have hentering : ∀ node edge found, machine.progress.logs.reverse <+:
      (machine.entering visitor node edge found).logs.reverse := by
    intro node edge found
    exact List.reverse_prefix.2 (machine.logs_suffix_entering visitor node edge found)
  -- a walk that stops or completes says so in one more entry
  have hentry : ∀ (logs : List Log) (entry : Log), logs.reverse <+: (entry :: logs).reverse := by
    intro logs entry
    exact List.reverse_prefix.2 (List.suffix_cons entry logs)
  cases h with
  | completed hstack => exact hentry _ _
  | fault hstack hfault => exact List.prefix_refl _
  | @enterFailed node edge rest found error hstack hfound hanswer => exact hentering node edge found
  | @enterStopped node edge rest found hstack hfound hanswer =>
    exact (hentering node edge found).trans (hentry _ _)
  | leaveFailed hstack hanswer => exact List.prefix_refl _
  | leaveStopped hstack hanswer => exact hentry _ _

/-- The log before a run stands at the beginning of the log that it leaves behind. -/
theorem logs_prefix_run (walker : Walker) (visitor : Visitor σ ε) (machine : Machine σ) :
    machine.progress.logs.reverse <+: (machine.run walker visitor).logs := by
  refine @run_of_invariant _ _ walker visitor
    (fun later => machine.progress.logs <:+ later.progress.logs)
    (fun run => machine.progress.logs.reverse <+: run.logs) ?_ ?_ machine (List.suffix_refl _)
  · intro later next hsuffix hsteps
    exact hsuffix.trans hsteps.logs_suffix
  · intro later run hsuffix hhalts
    exact (List.reverse_prefix.2 hsuffix).trans hhalts.logs_prefix

/-- If a node passes the examination, the warning about it stands in the log of the run, whatever the visitor
answers. -/
theorem logs_entering_prefix_run (visitor : Visitor σ ε) {node : Json} {edge : Option Edge}
    {rest : List Frame} {found : Walker.Finding} (hstack : machine.stack = .enter node edge :: rest)
    (hfound : walker.examine node machine.ancestors.depth ⟨edge, machine.steps⟩ = .ok found) :
    (machine.entering visitor node edge found).logs.reverse <+:
      (machine.run walker visitor).logs := by
  have hstep : machine.step walker visitor = machine.enterNode walker visitor node edge rest := by
    rw [step, hstack]
  rw [enterNode_of_examine hfound] at hstep
  have hlater := fun action => logs_prefix_run walker visitor
    (machine.descend (machine.entering visitor node edge found).countNode node edge found action rest)
  cases hanswer : (visitor.enter node (machine.contextFor edge found) machine.progress.state).1 with
  | error error =>
    rw [hanswer] at hstep
    rw [run_of_halt hstep]
    exact List.prefix_refl _
  | ok action =>
    rw [hanswer] at hstep
    cases action with
    | stop =>
      rw [run_of_halt hstep]
      exact List.reverse_prefix.2 (List.suffix_cons _ _)
    | proceed =>
      rw [run_of_next hstep]
      exact hlater .proceed
    | skip =>
      rw [run_of_next hstep]
      exact hlater .skip

/-! ## The step that cuts a walk -/

/-- A visitor that answers the call of a step with an end of the walk halts there. It has made this call and
has warned of nothing of which the run of any other visitor does not warn. -/
theorem Makes.cut (h : Makes walker machine call) (visitor : Visitor σ ε) {last : Except ε Action}
    {result : Except (Failure ε) Outcome} (hends : Ends last result)
    (hlast : other.answer twin call = last) :
    ∃ run, Halts walker other (machine.withState twin) run ∧ run.result = result ∧
      run.calls = (call :: machine.progress.calls).reverse ∧
      run.warnings <+: (machine.run walker visitor).warnings := by
  cases h with
  | @enter node edge rest found hstack hfound =>
    have hlogs := (logs_entering_prefix_run visitor hstack hfound).filter
      fun entry => entry.level = .warn
    have hentering := machine.entering_withState visitor other twin node edge found
    have hcalls := machine.calls_entering visitor node edge found
    cases hends with
    | stop =>
      refine ⟨_, .enterStopped hstack hfound hlast, rfl, ?_, ?_⟩
      · rw [hentering, ← hcalls]
        rfl
      · rw [hentering, Progress.warnings_stopped]
        exact hlogs
    | error error =>
      refine ⟨_, .enterFailed hstack hfound hlast, rfl, ?_, ?_⟩
      · rw [hentering, ← hcalls]
        rfl
      · rw [hentering]
        exact hlogs
  | @leave node nodeType edge rest hstack =>
    have hlogs := (logs_prefix_run walker visitor machine).filter fun entry => entry.level = .warn
    cases hends with
    | stop =>
      refine ⟨_, .leaveStopped hstack hlast, rfl, rfl, ?_⟩
      rw [Progress.warnings_stopped]
      exact hlogs
    | error error => exact ⟨_, .leaveFailed hstack hlast, rfl, rfl, hlogs⟩

/-- As long as a run has further calls to make, the next step makes one, and it goes on if that is not the
last. -/
theorem next_call (walker : Walker) (visitor : Visitor σ ε) (machine : Machine σ)
    (h : machine.progress.calls.length < (machine.run walker visitor).calls.length) :
    ∃ call, Makes walker machine call ∧
      machine.progress.calls.reverse ++ [call] <+: (machine.run walker visitor).calls ∧
      (machine.progress.calls.length + 1 < (machine.run walker visitor).calls.length →
        ∃ next, Steps walker visitor machine next ∧
          next.progress.calls = call :: machine.progress.calls ∧
          next.progress.state = visitor.after machine.progress.state call) := by
  rcases step_cases walker visitor machine with ⟨next, hnext, hsteps⟩ | ⟨run, hrun, hhalts⟩
  · obtain ⟨call, hmakes, hcalls⟩ := hsteps.calls_eq
    obtain ⟨call', hcalls', hstate⟩ := hsteps.state_eq
    obtain ⟨rfl, -⟩ := List.cons.inj (hcalls.symm.trans hcalls')
    have hprefix := calls_prefix_run walker visitor next
    rw [hcalls, List.reverse_cons, ← run_of_next hnext] at hprefix
    exact ⟨call, hmakes, hprefix, fun _ => ⟨next, hsteps, hcalls, hstate⟩⟩
  · rw [run_of_halt hrun] at h ⊢
    rcases hhalts.calls_eq with hcalls | ⟨call, hmakes, hcalls⟩
    · -- a run that ends without a call has none left
      rw [hcalls, List.length_reverse] at h
      exact absurd h (Nat.lt_irrefl _)
    · refine ⟨call, hmakes, ?_, ?_⟩
      · rw [hcalls, List.reverse_cons]
      · intro hmore
        rw [hcalls, List.length_reverse, List.length_cons] at hmore
        exact absurd hmore (Nat.lt_irrefl _)

/-- Two machines that are in step before the cut, one with each visitor: the run with the visitor that is cut
makes the calls up to the cut. -/
theorem run_cut {full : Run σ ε} {state : σ} {k : Nat} {last : Except ε Action}
    {result : Except (Failure ε) Outcome} (hends : Ends last result) (hk : k ≤ full.calls.length)
    (hcut : visitor.CutsAt state full.calls k last other twin) (left : Nat) :
    ∀ machine : Machine σ, machine.progress.calls.length + left + 1 = k →
      machine.run walker visitor = full →
      machine.progress.state = machine.progress.calls.reverse.foldl visitor.after state →
      ∀ run, (machine.withState (machine.progress.calls.reverse.foldl other.after twin)).run walker
        other = run →
      run.result = result ∧ run.calls = full.calls.take k ∧ run.warnings <+: full.warnings := by
  -- on the number of calls that are left before the one that is cut
  induction left with
  | zero =>
    intro machine hlength hfull hstate run hrun
    obtain ⟨call, hmakes, ⟨rest, hrest⟩, -⟩ := machine.next_call walker visitor
      (by rw [hfull]; omega)
    rw [hfull] at hrest
    have hlast := hcut.last call (by rw [← hlength, ← hrest]; simp)
    have htake : full.calls.take (k - 1) = machine.progress.calls.reverse := by
      rw [← hlength, ← hrest]
      simp
    rw [htake] at hlast
    obtain ⟨cut, hhalts, hresult, hcalls, hwarnings⟩ := hmakes.cut visitor hends hlast
    rw [run_of_halt hhalts.step_eq] at hrun
    subst hrun
    refine ⟨hresult, ?_, hfull ▸ hwarnings⟩
    rw [hcalls, ← hlength, ← hrest, List.reverse_cons]
    exact (List.take_left' (by simp)).symm
  | succ left ih =>
    intro machine hlength hfull hstate run hrun
    obtain ⟨call, hmakes, ⟨rest, hrest⟩, hgoes⟩ := machine.next_call walker visitor
      (by rw [hfull]; omega)
    obtain ⟨next, hsteps, hcalls, hafter⟩ := hgoes (by rw [hfull]; omega)
    rw [hfull] at hrest
    have hsame := hcut.same machine.progress.calls.length call (by omega) (by rw [← hrest]; simp)
    have htake : full.calls.take machine.progress.calls.length = machine.progress.calls.reverse := by
      rw [← hrest]
      simp
    rw [htake, ← hstate] at hsame
    have hother := hsteps.withState hmakes hsame
    have hfold : ∀ {ρ : Type u} (f : ρ → Call → ρ) (first : ρ),
        next.progress.calls.reverse.foldl f first =
          f (machine.progress.calls.reverse.foldl f first) call := by
      intro ρ f first
      rw [hcalls, List.reverse_cons, List.foldl_append]
      rfl
    refine ih next ?_ ?_ ?_ run ?_
    · rw [hcalls, List.length_cons]
      omega
    · rw [← hfull, run_of_next hsteps.step_eq]
    · rw [hafter, hstate, hfold]
    · rw [← hrun, run_of_next hother.step_eq, hfold]

end Machine

/-! ## Walks -/

/-- A visitor that is cut at one of the calls of a walk makes the calls of the walk up to this one, with the same
nodes and contexts, and no others. The walk then ends as the last answer says: it is stopped, or it fails with the
error of the visitor. No fault of a later node is reported, and there is no warning about one. -/
theorem Walker.walk_cut (walker : Walker) (visitor : Visitor σ ε) (other : Visitor τ ε) (root : Json)
    (state : σ) (twin : τ) (k : Nat) (hpos : 1 ≤ k)
    (hk : k ≤ (walker.walk visitor root state).calls.length) {last : Except ε Action}
    {result : Except (Failure ε) Outcome} (hends : Ends last result)
    (hcut : visitor.CutsAt state (walker.walk visitor root state).calls k last other twin) :
    (walker.walk other root twin).calls = (walker.walk visitor root state).calls.take k ∧
      (walker.walk other root twin).result = result ∧
      (walker.walk other root twin).warnings <+: (walker.walk visitor root state).warnings := by
  unfold walk at hk hcut ⊢
  split at hk
  · -- nothing is called without a tree
    exact absurd (Nat.le_trans hpos hk) (Nat.not_succ_le_zero 0)
  · rename_i hroot
    rw [if_neg hroot] at hcut ⊢
    rw [if_neg hroot]
    obtain ⟨hresult, hcalls, hwarnings⟩ := Machine.run_cut hends hk hcut (k - 1)
      (Machine.start root state) (by show 0 + (k - 1) + 1 = k; omega) rfl rfl _ rfl
    exact ⟨hcalls, hresult, hwarnings⟩

namespace Visitor

/-- The visitor that counts its calls and gives the `k`-th of them the given answer. All others it answers as the
given visitor does. -/
def cut (visitor : Visitor σ ε) (k : Nat) (last : Except ε Action) : Visitor (σ × Nat) ε where
  enter node context state :=
    (if state.2 + 1 = k then last else (visitor.enter node context state.1).1,
      (visitor.enter node context state.1).2, state.2 + 1)
  leave node context state :=
    (if state.2 + 1 = k then last else (visitor.leave node context state.1).1,
      (visitor.leave node context state.1).2, state.2 + 1)

theorem answer_cut (visitor : Visitor σ ε) (k : Nat) (last : Except ε Action) (state : σ × Nat)
    (call : Call) :
    (visitor.cut k last).answer state call =
      if state.2 + 1 = k then last else visitor.answer state.1 call := by
  rcases call with ⟨phase, node, context⟩
  cases phase with
  | enter => rfl
  | leave => rfl

/-- The counting visitor keeps the state of the other one, and the number of the calls. -/
theorem foldl_after_cut (visitor : Visitor σ ε) (k : Nat) (last : Except ε Action)
    (calls : List Call) (state : σ) (count : Nat) :
    calls.foldl (visitor.cut k last).after (state, count) =
      (calls.foldl visitor.after state, count + calls.length) := by
  induction calls generalizing state count with
  | nil => rfl
  | cons call rest ih =>
    have hafter : (visitor.cut k last).after (state, count) call =
        (visitor.after state call, count + 1) := by
      rcases call with ⟨phase, node, context⟩
      cases phase with
      | enter => rfl
      | leave => rfl
    rw [List.foldl_cons, hafter, ih, List.foldl_cons, List.length_cons, Nat.add_right_comm,
      Nat.add_assoc]

/-- Every visitor can be cut at every call. -/
theorem cutsAt_cut (visitor : Visitor σ ε) (state : σ) (calls : List Call) {k : Nat} (hpos : 1 ≤ k)
    (last : Except ε Action) :
    visitor.CutsAt state calls k last (visitor.cut k last) (state, 0) := by
  have hcount : ∀ i call, calls[i]? = some call → (calls.take i).length = i := by
    intro i call hcall
    have hlt := (List.getElem?_eq_some_iff.1 hcall).1
    rw [List.length_take, Nat.min_eq_left (Nat.le_of_lt hlt)]
  constructor
  · intro i call hi hcall
    rw [foldl_after_cut, answer_cut, hcount i call hcall]
    exact if_neg (by omega)
  · intro call hcall
    rw [foldl_after_cut, answer_cut, hcount (k - 1) call hcall]
    exact if_pos (by omega)

end Visitor

namespace Walker

/-- A walk that would fail at the third block is stopped at the second, or fails there with the error of the
visitor. -/
theorem walk_cut_nestedBlocks :
    (blocks.walk (.observer (ε := String) fun _ _ _ n => n + 1) nestedBlocks 0).result =
      .error (.fault (.tooDeep 1 [⟨"body", some 0⟩, ⟨"body", some 1⟩])) ∧
    (blocks.walk (.cut (.observer fun _ _ _ n => n + 1) 2 (.ok .stop) : Visitor (Nat × Nat) String)
      nestedBlocks (0, 0)).result = .ok .stopped ∧
    (blocks.walk (.cut (.observer fun _ _ _ n => n + 1) 2 (.error "enough")) nestedBlocks
      (0, 0)).result = .error (.visitor "enough") := by
  have hcalls : 2 ≤ (blocks.walk (.observer (ε := String) fun _ _ _ n => n + 1) nestedBlocks
      0).calls.length := by cbv
  refine ⟨by cbv, ?_, ?_⟩
  · exact (walk_cut blocks _ _ nestedBlocks 0 (0, 0) 2 (by decide) hcalls .stop
      (Visitor.cutsAt_cut _ 0 _ (by decide) _)).2.1
  · exact (walk_cut blocks _ _ nestedBlocks 0 (0, 0) 2 (by decide) hcalls (.error "enough")
      (Visitor.cutsAt_cut _ 0 _ (by decide) _)).2.1

end Walker

end SyntaxWalk
