import Mathlib
import SyntaxWalk.Proofs.Json.RoundTrip
import SyntaxWalk.Proofs.Trace.Grammar
import SyntaxWalk.Trace.Json

/-!
# Traces and their JSON forms

A trace is written in one form and read in several: each event may be an object or a pair, and each phase may
be a name or an object with this name as its only member. The values that stand for a phase and for an event
are listed by `Json.IsPhase` and `Json.IsEvent`, without regard to how they are read. An array is read as a
trace exactly if each of its items stands for an event, and the events come in the order of the items
(`Trace.ofJson?_eq_some_iff`). What was written is among the accepted forms and is read back, whatever the
types of the events are, also from the printed text (`Trace.json_forms`).
-/

set_option autoImplicit false

namespace SyntaxWalk

/-! ## Accepted forms -/

namespace Json

/-- The values that stand for a phase: its name, or an object in which this name alone is bound, to null. -/
inductive IsPhase : Json → Phase → Prop
  | enter : IsPhase (.string "enter") .enter
  | leave : IsPhase (.string "leave") .leave
  | enterMember : IsPhase (.object [("enter", .null)]) .enter
  | leaveMember : IsPhase (.object [("leave", .null)]) .leave

/-- The values that stand for an event: an object with a phase and a type, whatever else it has, or an array of
a phase and a type and nothing else. The type is any string. -/
inductive IsEvent : Json → Event → Prop
  | object {members : Bindings Json} {value : Json} {phase : Phase} {nodeType : String}
      (hphase : Bindings.get? "phase" members = some value)
      (htype : Bindings.get? "type" members = some (.string nodeType))
      (hvalue : value.IsPhase phase) : IsEvent (.object members) ⟨phase, nodeType⟩
  | pair {value : Json} {phase : Phase} {nodeType : String} (hvalue : value.IsPhase phase) :
      IsEvent (.array [value, .string nodeType]) ⟨phase, nodeType⟩

/-- Either form of a phase has its name. -/
theorem isPhase_iff {value : Json} {phase : Phase} :
    value.IsPhase phase ↔
      value = .string phase.name ∨ value = .object [(phase.name, .null)] := by
  constructor
  · intro h
    cases h <;> simp [Phase.name]
  · rintro (rfl | rfl)
    · cases phase
      · exact .enter
      · exact .leave
    · cases phase
      · exact .enterMember
      · exact .leaveMember

/-- A value chooses a name by being this name or by binding it alone, to null. -/
theorem choice?_eq_some_iff {value : Json} {name : String} :
    value.choice? = some name ↔ value = .string name ∨ value = .object [(name, .null)] := by
  constructor
  · intro h
    unfold choice? at h
    split at h <;> simp_all
  · rintro (rfl | rfl)
    · rfl
    · rfl

theorem string?_eq_some_iff {value : Json} {text : String} :
    value.string? = some text ↔ value = .string text := by
  cases value <;> simp [string?]

end Json

/-! ## Reading an event -/

namespace Event

/-- The values from which the parts of an event are read. -/
theorem ofParts?_eq_some_iff {phase nodeType : Json} {event : Event} :
    ofParts? phase nodeType = some event ↔
      phase.IsPhase event.phase ∧ nodeType = .string event.nodeType := by
  simp only [ofParts?, Option.bind_eq_bind, Option.bind_eq_some_iff, Option.pure_def,
    Option.some.injEq, Json.choice?_eq_some_iff, Json.string?_eq_some_iff]
  constructor
  · -- a name is the name of one phase only
    rintro ⟨name, hvalue, found, hname, text, rfl, rfl⟩
    cases Phase.name_of_ofName? hname
    exact ⟨Json.isPhase_iff.2 hvalue, rfl⟩
  · rintro ⟨hphase, rfl⟩
    exact ⟨_, Json.isPhase_iff.1 hphase, event.phase, Phase.ofName?_name _, _, rfl, rfl⟩

/-- An event is read exactly from the values that stand for it. -/
theorem ofJson?_eq_some_iff {value : Json} {event : Event} :
    ofJson? value = some event ↔ value.IsEvent event := by
  constructor
  · intro h
    unfold ofJson? at h
    split at h
    · simp only [Option.bind_eq_bind, Option.bind_eq_some_iff] at h
      obtain ⟨phase, hphase, nodeType, htype, hparts⟩ := h
      obtain ⟨hvalue, rfl⟩ := ofParts?_eq_some_iff.1 hparts
      exact .object hphase htype hvalue
    · obtain ⟨hvalue, rfl⟩ := ofParts?_eq_some_iff.1 h
      exact .pair hvalue
    · cases h
  · intro h
    cases h with
    | object hphase htype hvalue =>
      simp only [ofJson?, hphase, htype, Option.bind_eq_bind, Option.bind_some]
      exact ofParts?_eq_some_iff.2 ⟨hvalue, rfl⟩
    | pair hvalue => exact ofParts?_eq_some_iff.2 ⟨hvalue, rfl⟩

theorem isEvent_toJson (event : Event) : event.toJson.IsEvent event :=
  .object rfl rfl (Json.isPhase_iff.2 (.inl rfl))

end Event

/-! ## Reading a trace -/

/-- All items of a list are read one by one, or none of them. -/
theorem mapM_eq_some_iff {α β : Type} {read : α → Option β} {items : List α} {values : List β} :
    items.mapM read = some values ↔
      List.Forall₂ (fun item value => read item = some value) items values := by
  induction items generalizing values with
  | nil => simp [eq_comm]
  | cons item rest ih =>
    simp only [List.mapM_cons, Option.bind_eq_bind, Option.bind_eq_some_iff, Option.pure_def,
      Option.some.injEq, ih, List.forall₂_cons_left_iff]
    constructor
    · rintro ⟨value, hvalue, values', hrest, rfl⟩
      exact ⟨value, values', hvalue, hrest, rfl⟩
    · rintro ⟨value, values', hvalue, hrest, rfl⟩
      exact ⟨value, hvalue, values', hrest, rfl⟩

/-- A list has a companion that is related to it item by item exactly if each item is related to something. -/
theorem exists_forall₂_iff {α β : Type} {rel : α → β → Prop} {items : List α} :
    (∃ values, List.Forall₂ rel items values) ↔ ∀ item ∈ items, ∃ value, rel item value := by
  induction items with
  | nil => simp
  | cons item rest ih =>
    rw [List.forall_mem_cons, ← ih]
    constructor
    · rintro ⟨_, hvalues⟩
      cases hvalues with
      | cons hvalue hrest => exact ⟨⟨_, hvalue⟩, _, hrest⟩
    · rintro ⟨⟨value, hvalue⟩, values, hrest⟩
      exact ⟨value :: values, .cons hvalue hrest⟩

namespace Trace

/-- A trace is read exactly from the arrays whose items stand for its events, one after the other. -/
theorem ofJson?_eq_some_iff {value : Json} {trace : Trace} :
    ofJson? value = some trace ↔
      ∃ items, value = .array items ∧ List.Forall₂ Json.IsEvent items trace := by
  cases value with
  | array items => simp [ofJson?, mapM_eq_some_iff, Event.ofJson?_eq_some_iff]
  | _ => simp [ofJson?]

/-- A trace is read back from its JSON form. -/
theorem ofJson?_toJson (trace : Trace) : ofJson? trace.toJson = some trace := by
  rw [ofJson?_eq_some_iff]
  refine ⟨trace.map Event.toJson, rfl, ?_⟩
  rw [List.forall₂_map_left_iff, List.forall₂_same]
  intro event _
  exact event.isEvent_toJson

theorem printable_toJson (trace : Trace) : trace.toJson.Printable := by
  apply Json.Printable.array
  intro item hitem
  obtain ⟨event, -, rfl⟩ := List.mem_map.1 hitem
  exact .pair (by decide) (by decide) (.string _) (.string _)

/-- The traces and their JSON forms. Every trace is read back from the form in which it is written, and from the
printed text of this form, whatever the types of its events are. A value is read as a trace exactly if it is an
array of values that stand for events, the objects and pairs in any mixture; the trace then has the events in
the order of the array, one for each item. If one item stands for no event, nothing is read. -/
theorem json_forms :
    (∀ trace : Trace, ofJson? trace.toJson = some trace ∧
      (Json.parse? trace.toJson.indented).bind ofJson? = some trace) ∧
    (∀ (items : List Json) (trace : Trace),
      ofJson? (.array items) = some trace ↔ List.Forall₂ Json.IsEvent items trace) ∧
    ∀ value : Json, (∃ trace, ofJson? value = some trace) ↔
      ∃ items, value = .array items ∧ ∀ item ∈ items, ∃ event, item.IsEvent event := by
  refine ⟨?_, ?_, ?_⟩
  · intro trace
    have hblanks : ∀ c ∈ "".toList, Json.Strict.isSpace c = true := by simp
    have hparse := trace.printable_toJson.parse?_indented hblanks
    rw [String.append_empty] at hparse
    exact ⟨trace.ofJson?_toJson, by rw [hparse, Option.bind_some, trace.ofJson?_toJson]⟩
  · intro items trace
    simp [ofJson?_eq_some_iff]
  · intro value
    simp only [ofJson?_eq_some_iff, ← exists_forall₂_iff]
    constructor
    · rintro ⟨trace, items, hvalue, hevents⟩
      exact ⟨items, hvalue, trace, hevents⟩
    · rintro ⟨items, hvalue, trace, hevents⟩
      exact ⟨trace, items, hvalue, hevents⟩

end Trace

end SyntaxWalk
