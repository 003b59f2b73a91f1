import SyntaxWalk.Proofs.Walk.Steps
import SyntaxWalk.Walk.Recursive

/-!
# The machine and the recursion make the same walk

The recursion makes its checks of a node one after the other, and they come to the examination that the
machine makes (`visit_eq`). The stack of the machine holds, one on top of the other, what the recursion keeps
in its calls. Working off the topmost `enter` frame and everything it puts on the stack is one visit of the
recursion, whatever lies below it (`run_enter`); working off the frames of children is a visit of them one
after the other (`run_childFrames`). A visit that ends the walk ends the run of the machine there. For the
whole tree the two walks leave the same behind: result, state of the visitor, hook calls and log
(`walk_eq_walkByRecursion`).
-/

set_option autoImplicit false

namespace SyntaxWalk

universe u v

variable {σ : Type u} {ε : Type v}

/-- What a walk leaves behind that is ended early. -/
def Progress.halted (progress : Progress σ) : Halt ε → Run σ ε
  | .stopped phase => progress.stopped phase
  | .failed failure => progress.failed failure

/-! ## The parts of a visit -/

namespace Walker

/-- The end of a visit: unless the walk is over, the node is left. -/
def close (visitor : Visitor σ ε) (node : Json) (context : Context) :
    Option (Halt ε) × Progress σ → Option (Halt ε) × Progress σ
  | (some halt, progress) => (some halt, progress)
  | (none, progress) =>
    match progress.call visitor .leave node context with
    | (.error error, progress) => (some (.failed (.visitor error)), progress)
    | (.ok .stop, progress) => (some (.stopped .leave), progress)
    | (.ok _, progress) => (none, progress)

section Visit

variable {walker : Walker} {visitor : Visitor σ ε} {node : Json} {edge : Option Edge}
  {above : Ancestry} {steps : List (Option Edge)} {progress entered : Progress σ}
  {found : Finding}

/-- The checks that the recursion makes, one after the other, are the examination that the machine makes. -/
theorem visit_eq :
    walker.visit visitor node edge above steps progress =
      match walker.examine node above.depth ⟨edge, steps⟩ with
      | .error fault => (some (.failed (.fault fault)), progress)
      | .ok found => walker.visitFound visitor node found edge above steps progress := by
  have hlimit : walker.maxDepth.filter (· < above.depth) = walker.exceeded? above.depth := by
    rw [exceeded?]
    cases walker.maxDepth with
    | none => rfl
    | some limit => simp [Option.filter_some]
  rw [visit, examine, hlimit]
  cases node.tag? with
  | none => rfl
  | some tag =>
    cases walker.exceeded? above.depth with
    | some limit => rfl
    | none =>
      cases hkeys : walker.registry.keys? tag with
      | some keys => simp [hkeys]
      | none => cases hpolicy : walker.unknownTypes <;> simp [hkeys]

theorem visit_of_fault {fault : Fault}
    (hfault : walker.examine node above.depth ⟨edge, steps⟩ = .error fault) :
    walker.visit visitor node edge above steps progress =
      (some (.failed (.fault fault)), progress) := by
  rw [visit_eq, hfault]

theorem visit_of_error {error : ε}
    (hfound : walker.examine node above.depth ⟨edge, steps⟩ = .ok found)
    (hcall : (progress.noteUnknown found ⟨edge, steps⟩).call visitor .enter node
      ⟨above, edge, found.nodeType⟩ = (.error error, entered)) :
    walker.visit visitor node edge above steps progress =
      (some (.failed (.visitor error)), entered) := by
  rw [visit_eq, hfound]
  dsimp only
  rw [visitFound, hcall]

theorem visit_of_stop
    (hfound : walker.examine node above.depth ⟨edge, steps⟩ = .ok found)
    (hcall : (progress.noteUnknown found ⟨edge, steps⟩).call visitor .enter node
      ⟨above, edge, found.nodeType⟩ = (.ok .stop, entered)) :
    walker.visit visitor node edge above steps progress =
      (some (.stopped .enter), entered.countNode) := by
  rw [visit_eq, hfound]
  dsimp only
  rw [visitFound, hcall]

/-- A node that is entered and does not end the walk: its children are visited, then it is left. -/
theorem visit_of_action {action : Action}
    (hfound : walker.examine node above.depth ⟨edge, steps⟩ = .ok found)
    (hcall : (progress.noteUnknown found ⟨edge, steps⟩).call visitor .enter node
      ⟨above, edge, found.nodeType⟩ = (.ok action, entered)) (haction : action ≠ .stop) :
    walker.visit visitor node edge above steps progress =
      close visitor node ⟨above, edge, found.nodeType⟩
        (walker.visitAll visitor (sizeOf node) (visitedChildren node found action)
          (fun _ => sizeOf_visitedChildren_lt) (above.push node) (edge :: steps)
          entered.countNode) := by
  rw [visit_eq, hfound]
  dsimp only
  rw [visitFound, hcall]
  cases action with
  | stop => exact absurd rfl haction
  | proceed => rfl
  | skip => rfl

end Visit

@[simp] theorem visitAll_nil (walker : Walker) (visitor : Visitor σ ε) (bound : Nat)
    (small : ∀ child ∈ ([] : List (Edge × Json)), sizeOf child.2 < bound) (above : Ancestry)
    (steps : List (Option Edge)) (progress : Progress σ) :
    walker.visitAll visitor bound [] small above steps progress = (none, progress) := by
  rw [visitAll]

/-- Of several children the first is visited first; the others follow if that did not end the walk. -/
theorem visitAll_cons (walker : Walker) (visitor : Visitor σ ε) (bound : Nat)
    (child : Edge × Json) (rest : List (Edge × Json))
    (small : ∀ c ∈ child :: rest, sizeOf c.2 < bound) (above : Ancestry)
    (steps : List (Option Edge)) (progress : Progress σ) :
    walker.visitAll visitor bound (child :: rest) small above steps progress =
      match walker.visit visitor child.2 (some child.1) above steps progress with
      | (some halt, progress) => (some halt, progress)
      | (none, progress) =>
        walker.visitAll visitor bound rest (fun c hc => small c (List.mem_cons_of_mem _ hc)) above
          steps progress := by
  rcases hvisit : walker.visit visitor child.2 (some child.1) above steps progress with
    ⟨_ | halt, visited⟩
  · simp only [visitAll, hvisit]
  · simp only [visitAll, hvisit]

end Walker

/-! ## The machine works off visits -/

namespace Machine

/-- The run after a visit: it goes on with the rest of the stack unless the visit ended the walk. -/
def resume (walker : Walker) (visitor : Visitor σ ε) (rest : List Frame) (ancestors : Ancestry)
    (steps : List (Option Edge)) : Option (Halt ε) × Progress σ → Run σ ε
  | (none, progress) => run walker visitor ⟨rest, ancestors, steps, progress⟩
  | (some halt, progress) => progress.halted halt

/-- The frames of the visited children lie in order on the frame that closes the node. -/
theorem stack_descend (machine : Machine σ) (progress : Progress σ) (node : Json)
    (edge : Option Edge) (found : Walker.Finding) (action : Action) (rest : List Frame) :
    (machine.descend progress node edge found action rest).stack =
      childFrames (Walker.visitedChildren node found action) ++
        .leave node found.nodeType edge :: rest := by
  rw [descend, Walker.visitedChildren]
  dsimp only
  split
  · rfl
  · exact pushChildren_eq _ _ _

/-- A `leave` frame is worked off by leaving its node. -/
theorem run_leave (walker : Walker) (visitor : Visitor σ ε) (node : Json) (nodeType : String)
    (edge : Option Edge) (rest : List Frame) (above : Ancestry) (steps : List (Option Edge))
    (progress : Progress σ) :
    run walker visitor ⟨.leave node nodeType edge :: rest, above.push node, edge :: steps,
        progress⟩ =
      resume walker visitor rest above steps
        (Walker.close visitor node ⟨above, edge, nodeType⟩ (none, progress)) := by
  have hstep : step walker visitor ⟨.leave node nodeType edge :: rest, above.push node,
      edge :: steps, progress⟩ =
      match progress.call visitor .leave node ⟨above, edge, nodeType⟩ with
      | (.error error, left) => .halt (left.failed (.visitor error))
      | (.ok .stop, left) => .halt (left.stopped .leave)
      | (.ok _, left) => .next ⟨rest, above, steps, left⟩ := rfl
  rw [Walker.close]
  -- the two definitions split on the same answer
  rcases hcall : progress.call visitor .leave node ⟨above, edge, nodeType⟩ with
    ⟨error | action, left⟩
  · rw [hcall] at hstep
    rw [run_of_halt hstep]
    rfl
  · rw [hcall] at hstep
    cases action with
    | stop =>
      rw [run_of_halt hstep]
      rfl
    | proceed =>
      rw [run_of_next hstep]
      rfl
    | skip =>
      rw [run_of_next hstep]
      rfl

/-- The frames of children are worked off by visiting the children, if each of their frames is worked off
by a visit. -/
theorem run_childFrames (walker : Walker) (visitor : Visitor σ ε) (bound : Nat)
    (children : List (Edge × Json)) (small : ∀ child ∈ children, sizeOf child.2 < bound)
    (rest : List Frame) (above : Ancestry) (steps : List (Option Edge)) :
    (∀ child ∈ children, ∀ (stack : List Frame) (progress : Progress σ),
      run walker visitor ⟨.enter child.2 (some child.1) :: stack, above, steps, progress⟩ =
        resume walker visitor stack above steps
          (walker.visit visitor child.2 (some child.1) above steps progress)) →
      ∀ progress : Progress σ,
        run walker visitor ⟨childFrames children ++ rest, above, steps, progress⟩ =
          resume walker visitor rest above steps
            (walker.visitAll visitor bound children small above steps progress) := by
  intro hvisit
  induction children with
  | nil =>
    intro progress
    rw [Walker.visitAll_nil]
    rfl
  | cons child others ih =>
    intro progress
    have hfirst := hvisit child List.mem_cons_self (childFrames others ++ rest) progress
    have hothers := ih (fun c hc => small c (List.mem_cons_of_mem _ hc))
      fun c hc => hvisit c (List.mem_cons_of_mem _ hc)
    have hstack : childFrames (child :: others) ++ rest =
        .enter child.2 (some child.1) :: (childFrames others ++ rest) := rfl
    rw [hstack, hfirst, Walker.visitAll_cons]
    rcases walker.visit visitor child.2 (some child.1) above steps progress with
      ⟨_ | halt, visited⟩
    · exact hothers visited
    · -- a walk that is over leaves the other frames on the stack
      rfl

/-- A node that is entered and does not end the walk: the frames of its children come to lie on the frame
that closes it. -/
theorem step_of_action {walker : Walker} {visitor : Visitor σ ε} {node : Json}
    {edge : Option Edge} {rest : List Frame} {above : Ancestry} {steps : List (Option Edge)}
    {progress entered : Progress σ} {found : Walker.Finding} {action : Action}
    (hfound : walker.examine node above.depth ⟨edge, steps⟩ = .ok found)
    (hcall : (progress.noteUnknown found ⟨edge, steps⟩).call visitor .enter node
      ⟨above, edge, found.nodeType⟩ = (.ok action, entered)) (haction : action ≠ .stop) :
    step walker visitor ⟨.enter node edge :: rest, above, steps, progress⟩ =
      .next ⟨childFrames (Walker.visitedChildren node found action) ++
        .leave node found.nodeType edge :: rest, above.push node, edge :: steps,
        entered.countNode⟩ := by
  rw [← stack_descend ⟨.enter node edge :: rest, above, steps, progress⟩ entered.countNode, step]
  dsimp only
  rw [enterNode, hfound]
  dsimp only
  rw [hcall]
  cases action with
  | stop => exact absurd rfl haction
  | proceed => rfl
  | skip => rfl

/-- An `enter` frame and all that it puts on the stack are worked off by one visit. -/
theorem run_enter (walker : Walker) (visitor : Visitor σ ε) (node : Json) :
    ∀ (edge : Option Edge) (rest : List Frame) (above : Ancestry)
      (steps : List (Option Edge)) (progress : Progress σ),
      run walker visitor ⟨.enter node edge :: rest, above, steps, progress⟩ =
        resume walker visitor rest above steps
          (walker.visit visitor node edge above steps progress) := by
  -- the hypothesis has to hold for every stack below the frame: the children lie on the frame that
  -- closes their node
  induction node using Json.children_induction with
  | step node ih =>
    intro edge rest above steps progress
    have hstep : step walker visitor ⟨.enter node edge :: rest, above, steps, progress⟩ =
        enterNode walker visitor ⟨.enter node edge :: rest, above, steps, progress⟩ node edge
          rest := rfl
    cases hfound : walker.examine node above.depth ⟨edge, steps⟩ with
    | error fault =>
      rw [enterNode, hfound] at hstep
      rw [run_of_halt hstep, Walker.visit_of_fault hfound]
      rfl
    | ok found =>
      rw [enterNode, hfound] at hstep
      dsimp only at hstep
      rcases hcall : (progress.noteUnknown found ⟨edge, steps⟩).call visitor .enter node
        ⟨above, edge, found.nodeType⟩ with ⟨error | action, entered⟩
      · rw [hcall] at hstep
        rw [run_of_halt hstep, Walker.visit_of_error hfound hcall]
        rfl
      · rw [hcall] at hstep
        by_cases haction : action = .stop
        · subst haction
          rw [run_of_halt hstep, Walker.visit_of_stop hfound hcall]
          rfl
        · rw [run_of_next (step_of_action hfound hcall haction),
            Walker.visit_of_action hfound hcall haction,
            run_childFrames walker visitor (sizeOf node) _
              fun _ => Walker.sizeOf_visitedChildren_lt]
          · -- the children are done, and the frame that closes the node is on top
            rcases walker.visitAll visitor (sizeOf node)
              (Walker.visitedChildren node found action)
              (fun _ => Walker.sizeOf_visitedChildren_lt) (above.push node) (edge :: steps)
              entered.countNode with ⟨_ | halt, visited⟩
            · exact run_leave walker visitor node found.nodeType edge rest above steps visited
            · rfl
          · -- the frame of each child is worked off by a visit of the child
            intro child hchild stack visited
            exact ih _ child (Walker.mem_children_of_visited hchild) _ _ _ _ _

/-- The run over a whole tree is the visit of its root. -/
theorem run_start (walker : Walker) (visitor : Visitor σ ε) (root : Json) (state : σ) :
    (start root state).run walker visitor =
      match walker.visit visitor root none .none [] (.start state) with
      | (none, progress) => progress.completed
      | (some halt, progress) => progress.halted halt := by
  rw [start, run_enter]
  rcases walker.visit visitor root none .none [] (.start state) with ⟨_ | halt, visited⟩
  · exact run_of_halt rfl
  · rfl

end Machine

/-! ## The walk of a tree -/

/-- The machine and the recursion make the same walk: they call the same hooks in the same order, with
the same nodes and contexts, and end with the same state of the visitor, result and log. -/
theorem Walker.walk_eq_walkByRecursion (walker : Walker) (visitor : Visitor σ ε) (root : Json)
    (state : σ) : walker.walk visitor root state = walker.walkByRecursion visitor root state := by
  rw [walk, walkByRecursion]
  split
  · rfl
  · rw [Machine.run_start]
    rcases walker.visit visitor root none .none [] (.start state) with ⟨_ | halt, visited⟩
    · rfl
    · cases halt with
      | stopped phase => rfl
      | failed failure => rfl

end SyntaxWalk
