import Mathlib
import SyntaxWalk.Proofs.Registry
import SyntaxWalk.Proofs.Text
import SyntaxWalk.Proofs.Trace.Sessions
import SyntaxWalk.Trace.Text

/-!
# The text of a trace, read back

An event whose type is a word is read back from its line (`Event.ofLine?_line`), and the lines of a trace are
found again in its text (`lines_render`), so that the trace is read back from its text if its types are words.
Reading gives nothing but words (`isWord_of_parse`), so that no other trace is (`parse_render_iff`).

Words come from reading any text, and from a strict walk with the standard node types, which enters no node
of another type (`Walker.contains_of_mem_calls`).
-/

set_option autoImplicit false

namespace SyntaxWalk

universe u v

variable {σ : Type u} {ε : Type v}

open Text

/-! ## The line of an event -/

theorem Phase.isWord_name (phase : Phase) : IsWord phase.name.toList := by
  cases phase with
  | enter => decide
  | leave => decide

namespace Event

theorem toList_line (event : Event) :
    event.line.toList = event.phase.name.toList ++ (separator ++ event.nodeType.toList) := by
  rw [line, String.toList_append, String.toList_append, List.append_assoc]
  rfl

section

variable {event : Event} (h : IsWord event.nodeType.toList)

include h

theorem getLast?_line : event.line.toList.getLast? = event.nodeType.toList.getLast? := by
  rw [toList_line, List.getLast?_append_of_ne_nil _ (by simp [separator]),
    List.getLast?_append_of_ne_nil _ h.ne_nil]

/-- A line begins with its phase and ends with its type, so that trimming leaves it as it is. -/
theorem trim_line : trim event.line.toList = event.line.toList := by
  have hphase := event.phase.isWord_name
  apply trim_eq_self
  · rw [toList_line, List.head?_append_of_ne_nil _ hphase.ne_nil]
    exact hphase.head
  · rw [getLast?_line h]
    exact h.last

/-- A line is not empty and holds no line end. -/
theorem line_isLine :
    event.line.toList ≠ [] ∧ '\n' ∉ event.line.toList ∧ event.line.toList.getLast? ≠ some '\r' := by
  have hphase := event.phase.isWord_name
  refine ⟨?_, ?_, ?_⟩
  · rw [toList_line]
    simp [hphase.ne_nil]
  · rw [toList_line, List.mem_append, List.mem_append, not_or, not_or]
    exact ⟨hphase.notMem (by decide), by decide, h.notMem (by decide)⟩
  · rw [getLast?_line h]
    intro hlast
    exact h.notMem (by decide) (List.mem_of_getLast? hlast)

/-- An event is read back from its line. -/
theorem ofLine?_line : ofLine? event.line.toList = some event := by
  have hphase := event.phase.isWord_name
  -- no space stands in the phase, so that the separator is the one that was written
  have hsplit : splitAtFirst? separator event.line.toList =
      some (event.phase.name.toList, event.nodeType.toList) := by
    rw [toList_line]
    exact splitAtFirst?_append _ _ (hphase.notMem (by decide))
  have hword := (isWord_iff _).1 h
  rw [ofLine?, hsplit]
  simp only [Option.bind_eq_bind, Option.bind_some, hphase.trim_eq, h.trim_eq, String.ofList_toList,
    Phase.ofName?_name, hword, Bool.false_eq_true, if_false]

end

/-- The type of an event that was read is a word. -/
theorem isWord_of_ofLine? {line : List Char} {event : Event} (h : ofLine? line = some event) :
    IsWord event.nodeType.toList := by
  obtain ⟨parts, -, hphase⟩ := Option.bind_eq_some_iff.1 h
  obtain ⟨phase, -, hname⟩ := Option.bind_eq_some_iff.1 hphase
  dsimp only at hname
  split at hname
  · cases hname
  · rename_i htest
    cases hname
    rw [String.toList_ofList, isWord_iff]
    exact Bool.eq_false_iff.2 htest

end Event

/-! ## The lines of a trace -/

namespace Trace

variable {trace : Trace}

theorem lines_render (h : ∀ event ∈ trace, IsWord event.nodeType.toList) :
    lines trace.render.toList = trace.map fun event => event.line.toList := by
  rw [render, String.toList_intercalate, List.map_map]
  apply lines_intercalate
  intro line hline
  obtain ⟨event, hevent, rfl⟩ := List.mem_map.1 hline
  exact Event.line_isLine (h event hevent)

/-- The events are read back from their lines. -/
theorem ofLines_lines (h : ∀ event ∈ trace, IsWord event.nodeType.toList) (number : Nat) :
    ofLines number (trace.map fun event => event.line.toList) = .ok trace := by
  induction trace generalizing number with
  | nil => rfl
  | cons event rest ih =>
    obtain ⟨hevent, hrest⟩ := List.forall_mem_cons.1 h
    have hne : event.line.toList.isEmpty = false :=
      List.isEmpty_eq_false_iff.2 (Event.line_isLine hevent).1
    rw [List.map_cons, ofLines]
    simp [Event.trim_line hevent, hne, Event.ofLine?_line hevent, ih hrest]

/-- A trace whose types are words is read back from its text. -/
theorem parse_render (h : ∀ event ∈ trace, IsWord event.nodeType.toList) :
    parse trace.render = .ok trace := by
  rw [parse, lines_render h, ofLines_lines h]

/-- All types that are read from lines are words. -/
theorem isWord_of_ofLines {number : Nat} {texts : List (List Char)}
    (h : ofLines number texts = .ok trace) : ∀ event ∈ trace, IsWord event.nodeType.toList := by
  induction texts generalizing number trace with
  | nil =>
    cases h
    exact List.forall_mem_nil _
  | cons line rest ih =>
    rw [ofLines] at h
    split at h
    · -- a blank line gives no event
      exact ih h
    · split at h
      · cases h
      · rename_i first hfirst
        split at h
        · cases h
        · rename_i others hothers
          cases h
          exact List.forall_mem_cons.2 ⟨Event.isWord_of_ofLine? hfirst, ih hothers⟩

theorem isWord_of_parse {text : String} (h : parse text = .ok trace) :
    ∀ event ∈ trace, IsWord event.nodeType.toList :=
  isWord_of_ofLines h

end Trace

/-! ## The types of a strict walk -/

/-- A strict walk visits nodes of types that the registry knows. -/
theorem Walker.contains_of_mem_calls {walker : Walker} (hstrict : walker.unknownTypes = .strict)
    {visitor : Visitor σ ε} {root : Json} {state : σ} {call : Call}
    (h : call ∈ (walker.walk visitor root state).calls) :
    walker.registry.contains call.context.nodeType = true := by
  have henter : ∀ call ∈ (walker.walk visitor root state).calls, call.phase = .enter →
      walker.registry.contains call.context.nodeType = true := by
    unfold walk
    split
    · nofun
    · refine @Machine.forall_calls_of_invariant _ _ walker visitor (fun _ => True)
        (fun call => call.phase = .enter → walker.registry.contains call.context.nodeType = true)
        (fun _ _ _ _ => trivial) ?_ _ trivial nofun
      rintro machine call - hmakes hphase
      cases hmakes with
      | @enter node edge rest found hstack hfound =>
        obtain ⟨-, -, ⟨hkeys, -⟩ | ⟨-, hlenient, -⟩⟩ := examine_eq_ok_iff.1 hfound
        · rw [Machine.contextFor, ← Bool.not_eq_false, ← Registry.keys?_eq_none_iff, hkeys]
          exact Option.some_ne_none _
        · rw [hstrict] at hlenient
          cases hlenient
      | leave hstack => cases hphase
  -- a node is left under the type under which it was entered
  obtain ⟨entered, hentered, hphase, hcontext⟩ :=
    (walker.nested_walk visitor root state).1.exists_enter call h
  rw [← hcontext]
  exact henter entered hentered hphase

theorem NodeType.isWord_name (t : NodeType) : IsWord t.name.toList := by
  -- the literals are taken as lists of characters, which spares their decoding
  cases t <;> exact IsWord.ofList (by decide)

namespace Trace

variable {trace : Trace}

/-- All types in the trace of a tree are words, if only the standard types are known. -/
theorem isWord_of_ofTree {root : Json} (h : ofTree .standard root = .ok trace) :
    ∀ event ∈ trace, IsWord event.nodeType.toList := by
  intro event hevent
  have htrace : trace = (Tracer.empty.record .standard root).calls.map Call.event := by
    rw [ofTree] at h
    split at h
    · cases h
      exact Tracer.trace_record_empty .standard root
    · cases h
  rw [htrace] at hevent
  obtain ⟨call, hcall, rfl⟩ := List.mem_map.1 hevent
  -- there are no extensions, so that the type is one of the standard ones
  have hknown := Walker.contains_of_mem_calls rfl hcall
  rcases Registry.contains_iff.1 hknown with hextension | ⟨t, ht⟩
  · cases hextension
  · rw [Call.event, ← ht]
    exact t.isWord_name

/-- A trace is read back from its text exactly if every type in it is a word: not empty, and without white
space. So the text of every trace that was read, from whatever text, gives the same trace again, and so does
the text of the trace of any tree under the standard rules. -/
theorem parse_render_iff (trace : Trace) :
    (parse trace.render = .ok trace ↔ ∀ event ∈ trace, IsWord event.nodeType.toList) ∧
    (∀ text, parse text = .ok trace → parse trace.render = .ok trace) ∧
    ∀ root, ofTree .standard root = .ok trace → parse trace.render = .ok trace := by
  refine ⟨⟨isWord_of_parse, parse_render⟩, ?_, ?_⟩
  · intro text htext
    exact parse_render (isWord_of_parse htext)
  · intro root hroot
    exact parse_render (isWord_of_ofTree hroot)

/-- A line with odd blanks and a type with a dash in it, and the trace of an empty program. -/
theorem parse_render_iff_blanks :
    parse "\t leave\u2003 -  a- \r\n\n" = .ok [⟨.leave, "a-"⟩] ∧
    parse (render [⟨.leave, "a-"⟩]) = .ok [⟨.leave, "a-"⟩] ∧
    ofTree .standard (.object [("type", .string "Program")]) =
      .ok [⟨.enter, "Program"⟩, ⟨.leave, "Program"⟩] ∧
    parse (render [⟨.enter, "Program"⟩, ⟨.leave, "Program"⟩]) =
      .ok [⟨.enter, "Program"⟩, ⟨.leave, "Program"⟩] := by
  have hread : parse "\t leave\u2003 -  a- \r\n\n" = .ok [⟨.leave, "a-"⟩] := by cbv
  have htree : ofTree .standard (.object [("type", .string "Program")]) =
      .ok [⟨.enter, "Program"⟩, ⟨.leave, "Program"⟩] := by cbv
  exact ⟨hread, (parse_render_iff _).2.1 _ hread, htree, (parse_render_iff _).2.2 _ htree⟩

end Trace

end SyntaxWalk
