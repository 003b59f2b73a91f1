import Mathlib
import SyntaxWalk.Proofs.Walk.FaultPlace

/-!
# Relaxing the rules of a walk

A walker is relaxed by visiting nodes of unknown types and by raising or dropping the limit
(`Walker.RelaxesTo`). Nothing else of a walk depends on these rules: a walk that is not ended by one of
them is the same walk under the relaxed rules, and of a walk that is, the relaxed walk makes all calls
first (`walk_relaxed`). Both walks are made by one machine, step by step, up to the first node that only
the relaxed walker lets pass.
-/

set_option autoImplicit false

namespace SyntaxWalk

universe u v

variable {σ : Type u} {ε : Type v}

namespace Walker

/-- The second walker has the registry of the first. It has the same policy or is lenient, and the same
limit, a greater one or none. -/
structure RelaxesTo (walker relaxed : Walker) : Prop where
  registry : relaxed.registry = walker.registry
  unknownTypes : relaxed.unknownTypes = walker.unknownTypes ∨ relaxed.unknownTypes = .lenient
  maxDepth : ∀ limit, relaxed.maxDepth = some limit →
    ∃ lower, walker.maxDepth = some lower ∧ lower ≤ limit

/-! ## The examination of a node -/

section Examination

variable {walker relaxed : Walker} {node : Json} {depth : Nat} {place : Place}

theorem RelaxesTo.exceeded_eq_none (h : walker.RelaxesTo relaxed)
    (hdepth : walker.exceeded? depth = none) : relaxed.exceeded? depth = none := by
  cases hrelaxed : relaxed.exceeded? depth with
  | none => rfl
  | some limit =>
    obtain ⟨hlimit, hlt⟩ := exceeded?_eq_some_iff.1 hrelaxed
    obtain ⟨lower, hlower, hle⟩ := h.maxDepth limit hlimit
    rw [exceeded?_eq_some_iff.2 ⟨hlower, Nat.lt_of_le_of_lt hle hlt⟩] at hdepth
    cases hdepth

/-- A node that passes the examination also passes the relaxed one, with the same finding. -/
theorem RelaxesTo.examine_eq_ok (h : walker.RelaxesTo relaxed) {found : Finding}
    (hfound : walker.examine node depth place = .ok found) :
    relaxed.examine node depth place = .ok found := by
  obtain ⟨htag, hdepth, hkeys⟩ := examine_eq_ok_iff.1 hfound
  rw [examine_eq_ok_iff, h.registry]
  refine ⟨htag, h.exceeded_eq_none hdepth, hkeys.imp id ?_⟩
  -- an unknown type passes only if the walk is lenient, and so is the relaxed one
  rintro ⟨hnone, hpolicy, hempty⟩
  refine ⟨hnone, ?_, hempty⟩
  rcases h.unknownTypes with hsame | hlenient
  · rw [hsame, hpolicy]
  · exact hlenient

end Examination

end Walker

/-- A walk that was ended by the policy for unknown types or by the limit. -/
def Run.Restricted (run : Run σ ε) : Prop :=
  (∃ nodeType path, run.result = .error (.fault (.unknownType nodeType path))) ∨
    ∃ limit path, run.result = .error (.fault (.tooDeep limit path))

/-! ## One machine under two walkers -/

namespace Machine

variable {walker relaxed : Walker} {visitor : Visitor σ ε} {machine : Machine σ}

/-- Every step of a walk is a step of the relaxed walk. -/
theorem Steps.relax (h : walker.RelaxesTo relaxed) {next : Machine σ}
    (hsteps : Steps walker visitor machine next) : Steps relaxed visitor machine next := by
  cases hsteps with
  | enter hstack hfound hanswer haction =>
    exact .enter hstack (h.examine_eq_ok hfound) hanswer haction
  | leave hstack hanswer haction => exact .leave hstack hanswer haction

/-- A step that ends a walk also ends the relaxed walk, or it finds a fault that the relaxed walk may not
find; then no call is made. -/
theorem Halts.relax (h : walker.RelaxesTo relaxed) {run : Run σ ε}
    (hhalts : Halts walker visitor machine run) :
    Halts relaxed visitor machine run ∨
      run.Restricted ∧ run.calls = machine.progress.calls.reverse := by
  cases hhalts with
  | completed hstack => exact Or.inl (.completed hstack)
  | @fault node edge rest fault hstack hfault =>
    cases fault with
    | malformed path =>
      -- a missing tag is found whatever the rules are
      have htag := Walker.examine_eq_malformed_iff.1 hfault
      exact Or.inl (.fault hstack (Walker.examine_eq_malformed_iff.2 htag))
    | unknownType nodeType path => exact Or.inr ⟨Or.inl ⟨nodeType, path, rfl⟩, rfl⟩
    | tooDeep limit path => exact Or.inr ⟨Or.inr ⟨limit, path, rfl⟩, rfl⟩
  | enterFailed hstack hfound hanswer =>
    exact Or.inl (.enterFailed hstack (h.examine_eq_ok hfound) hanswer)
  | enterStopped hstack hfound hanswer =>
    exact Or.inl (.enterStopped hstack (h.examine_eq_ok hfound) hanswer)
  | leaveFailed hstack hanswer => exact Or.inl (.leaveFailed hstack hanswer)
  | leaveStopped hstack hanswer => exact Or.inl (.leaveStopped hstack hanswer)

/-- From one machine on, the relaxed run is the same, or it goes on where the other was ended. -/
theorem run_relaxed (h : walker.RelaxesTo relaxed) (machine : Machine σ) :
    (¬ (machine.run walker visitor).Restricted →
      machine.run relaxed visitor = machine.run walker visitor) ∧
    (machine.run walker visitor).calls <+: (machine.run relaxed visitor).calls := by
  refine @run_of_simulation _ _ _ _ walker relaxed visitor visitor Eq
    (fun run run' => (¬ run.Restricted → run' = run) ∧ run.calls <+: run'.calls) ?_ ?_
    machine machine rfl
  · rintro m _ next rfl hsteps
    exact ⟨next, hsteps.relax h, rfl⟩
  · rintro m _ run rfl hhalts
    rcases hhalts.relax h with hsame | ⟨hrestricted, hcalls⟩
    · rw [run_of_halt hsame.step_eq]
      exact ⟨fun _ => rfl, List.prefix_refl _⟩
    · rw [hcalls]
      exact ⟨fun hnot => absurd hrestricted hnot, calls_prefix_run relaxed visitor m⟩

end Machine

namespace Walker

/-- A walk that is not ended by the policy for unknown types or by the limit is the same under relaxed
rules: the same calls with the same contexts, final state of the visitor, log and result. The calls of a
walk that is ended so are the first calls of the relaxed walk. -/
theorem walk_relaxed {walker relaxed : Walker} (h : walker.RelaxesTo relaxed)
    (visitor : Visitor σ ε) (root : Json) (state : σ) :
    (¬ (walker.walk visitor root state).Restricted →
      relaxed.walk visitor root state = walker.walk visitor root state) ∧
    ((walker.walk visitor root state).Restricted →
      (walker.walk visitor root state).calls <+: (relaxed.walk visitor root state).calls) := by
  unfold walk
  split
  · exact ⟨fun _ => rfl, fun _ => List.prefix_refl _⟩
  · obtain ⟨hsame, hprefix⟩ := Machine.run_relaxed h (Machine.start root state)
    exact ⟨hsame, fun _ => hprefix⟩

/-- The walker for blocks without its limit, and lenient. -/
def freeBlocks : Walker :=
  ⟨blocks.registry, .lenient, none⟩

/-- A walk that is ended by the limit makes its calls at the start of the walk without a limit. -/
theorem walk_relaxed_nestedBlocks :
    (blocks.walk (.observer (ε := Empty) fun _ _ _ n => n + 1) nestedBlocks 0).Restricted ∧
    (blocks.walk (.observer (ε := Empty) fun _ _ _ n => n + 1) nestedBlocks 0).calls <+:
      (freeBlocks.walk (.observer (ε := Empty) fun _ _ _ n => n + 1) nestedBlocks 0).calls := by
  have hresult : (blocks.walk (.observer (ε := Empty) fun _ _ _ n => n + 1) nestedBlocks 0).result =
      .error (.fault (.tooDeep 1 [⟨"body", some 0⟩, ⟨"body", some 1⟩])) := by cbv
  have hrestricted : (blocks.walk (.observer (ε := Empty) fun _ _ _ n => n + 1) nestedBlocks
      0).Restricted := Or.inr ⟨1, _, hresult⟩
  have hrelaxes : blocks.RelaxesTo freeBlocks := by
    refine ⟨rfl, Or.inr rfl, ?_⟩
    intro limit hlimit
    cases hlimit
  exact ⟨hrestricted, (walk_relaxed hrelaxes _ nestedBlocks 0).2 hrestricted⟩

end Walker

end SyntaxWalk
