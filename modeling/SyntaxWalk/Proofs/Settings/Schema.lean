import Mathlib
import SyntaxWalk.Proofs.Number
import SyntaxWalk.Settings.Schema

/-!
# What the schema accepts

A check tests a property of values if it finds no violation exactly in the values with the property, wherever
they stand (`Check.Tests`). Each way to build a check has its lemma, so that the property tested by a check
is read off the way it is built. For the schema of settings files the property is
`Settings.Conforms`: the value is an object and each of its members has the form that `Settings.Allowed` gives
for its name.
-/

set_option autoImplicit false

namespace SyntaxWalk

/-! ## Kinds and texts -/

/-- The values of each kind. -/
@[simp] theorem Kind.admits_object_iff (value : Json) :
    Kind.object.admits value = true ↔ ∃ members, value = .object members := by
  cases value <;> simp [admits]

@[simp] theorem Kind.admits_array_iff (value : Json) :
    Kind.array.admits value = true ↔ ∃ items, value = .array items := by
  cases value <;> simp [admits]

@[simp] theorem Kind.admits_string_iff (value : Json) :
    Kind.string.admits value = true ↔ ∃ s, value = .string s := by
  cases value <;> simp [admits]

@[simp] theorem Kind.admits_integer_iff (value : Json) :
    Kind.integer.admits value = true ↔ ∃ n, value = .number n ∧ ∃ k : ℤ, n.toRat = k := by
  cases value <;> simp [admits, Number.isWhole_iff]

@[simp] theorem Json.strings?_ofStrings (texts : List String) :
    (ofStrings texts).strings? = some texts := by
  show (texts.map Json.string).mapM string? = some texts
  induction texts with
  | nil => rfl
  | cons text rest ih => simp [string?, ih]

theorem Json.ofStrings_inj {texts others : List String} (h : ofStrings texts = ofStrings others) :
    texts = others := by
  have htexts := strings?_ofStrings texts
  rw [h, strings?_ofStrings] at htexts
  exact (Option.some.inj htexts).symm

theorem Json.exists_ofStrings {items : List Json} (h : ∀ item ∈ items, ∃ s, item = .string s) :
    ∃ texts, Json.array items = ofStrings texts := by
  induction items with
  | nil => exact ⟨[], rfl⟩
  | cons item rest ih =>
    obtain ⟨⟨s, rfl⟩, hrest⟩ := List.forall_mem_cons.1 h
    obtain ⟨texts, htexts⟩ := ih hrest
    refine ⟨s :: texts, ?_⟩
    simpa [ofStrings] using htexts

/-! ## What a check tests -/

namespace Check

/-- The check finds no violation exactly in the values with the property. -/
def Tests (check : Check) (P : Json → Prop) : Prop :=
  ∀ value place, check value place = none ↔ P value

variable {check further : Check} {P Q : Json → Prop}

/-- A tested property may be said in another way. -/
theorem Tests.congr (h : check.Tests P) (hiff : ∀ value, P value ↔ Q value) : check.Tests Q := by
  intro value place
  rw [h value place, hiff value]

/-- A check of the kind comes before the further one. -/
theorem Tests.ofKind (expected : Kind) (h : further.Tests P) :
    (Check.ofKind expected further).Tests fun value => expected.admits value = true ∧ P value := by
  intro value place
  cases hadmits : expected.admits value <;> simp [Check.ofKind, hadmits, h value place]

theorem tests_pass : pass.Tests fun _ => True := by
  intro value place
  simp [pass]

theorem tests_oneOf (allowed : List String) :
    (oneOf allowed).Tests fun value => ∃ s ∈ allowed, value = .string s := by
  intro value place
  cases value <;> simp [oneOf, Json.string?]

theorem tests_atLeast (least : ℕ) :
    (atLeast least).Tests fun value => ∀ n, value = .number n → (least : ℚ) ≤ n.toRat := by
  intro value place
  cases value <;> simp [atLeast, Number.atLeast_iff]

theorem tests_nonempty : nonempty.Tests fun value => value ≠ .string "" := by
  intro value place
  cases value <;> simp [nonempty]

/-- The items of an array are tested from any index on. -/
theorem Tests.itemsFrom (h : check.Tests P) (index : ℕ) (place : List String) (items : List Json) :
    Check.itemsFrom check index place items = none ↔ ∀ item ∈ items, P item := by
  induction items generalizing index with
  | nil => simp [Check.itemsFrom]
  | cons item rest ih =>
    rw [List.forall_mem_cons, ← h item (place ++ [toString index]), ← ih (index + 1)]
    simp only [Check.itemsFrom]
    cases check item (place ++ [toString index]) <;> simp

theorem Tests.items (h : check.Tests P) :
    (Check.items check).Tests fun value => ∀ items, value = .array items → ∀ item ∈ items, P item := by
  intro value place
  cases value with
  | array items => simpa [Check.items] using h.itemsFrom 0 place items
  | _ => simp [Check.items]

/-- The check of each name tests the property of the name, and a name without a check has no values. -/
structure TestsNames (check? : String → Option Check) (P : String → Json → Prop) : Prop where
  refused : ∀ name, check? name = none → ∀ value, ¬P name value
  tests : ∀ name check, check? name = some check → check.Tests (P name)

variable {check? : String → Option Check} {R : String → Json → Prop}

/-- The members of an object are tested one after the other. -/
theorem TestsNames.membersIn (h : TestsNames check? R) (place : List String)
    (members : List (String × Json)) :
    Check.membersIn check? place members = none ↔ ∀ entry ∈ members, R entry.1 entry.2 := by
  induction members with
  | nil => simp [Check.membersIn]
  | cons entry rest ih =>
    rcases entry with ⟨name, value⟩
    rw [List.forall_mem_cons, ← ih]
    simp only [Check.membersIn]
    split
    · rename_i hcheck
      simp [h.refused name hcheck value]
    · rename_i check hcheck
      rw [← h.tests name check hcheck value (place ++ [name])]
      cases check value (place ++ [name]) <;> simp

theorem TestsNames.members (h : TestsNames check? R) :
    (Check.members check?).Tests fun value =>
      ∀ members, value = .object members → ∀ entry ∈ members, R entry.1 entry.2 := by
  intro value place
  cases value with
  | object members => simpa [Check.members] using h.membersIn place members
  | _ => simp [Check.members]

end Check

/-! ## The schema of settings files -/

namespace Settings

/-- The values that a settings file may give for each name. -/
inductive Allowed : String → Json → Prop
  /-- The schema may be any string. -/
  | schema (s : String) : Allowed "$schema" (.string s)
  | strict : Allowed "unknownTypes" (.string "strict")
  | lenient : Allowed "unknownTypes" (.string "lenient")
  /-- The limit is a number of any kind whose value is a whole number and at least one. -/
  | maxDepth (n : Number) (k : ℤ) (hvalue : n.toRat = k) (hpos : 1 ≤ k) : Allowed "maxDepth" (.number n)
  /-- The further types are an object of arrays of strings that are not empty. -/
  | keys (members : Bindings Json)
      (h : ∀ entry ∈ members, ∃ names, entry.2 = Json.ofStrings names ∧ "" ∉ names) :
      Allowed "keys" (.object members)

/-! The allowed values, name by name. -/

theorem allowed_schema_iff (value : Json) : Allowed "$schema" value ↔ ∃ s, value = .string s := by
  constructor
  · intro h
    generalize hname : "$schema" = name at h
    cases h <;> simp_all
  · rintro ⟨s, rfl⟩
    exact .schema s

theorem allowed_unknownTypes_iff (value : Json) :
    Allowed "unknownTypes" value ↔ value = .string "strict" ∨ value = .string "lenient" := by
  constructor
  · intro h
    generalize hname : "unknownTypes" = name at h
    cases h <;> simp_all
  · rintro (rfl | rfl)
    · exact .strict
    · exact .lenient

theorem allowed_maxDepth_iff (value : Json) :
    Allowed "maxDepth" value ↔ ∃ n, value = .number n ∧ ∃ k : ℤ, n.toRat = k ∧ 1 ≤ k := by
  constructor
  · intro h
    generalize hname : "maxDepth" = name at h
    cases h with
    | maxDepth n k hvalue hpos => exact ⟨n, rfl, k, hvalue, hpos⟩
    | _ => simp at hname
  · rintro ⟨n, rfl, k, hvalue, hpos⟩
    exact .maxDepth n k hvalue hpos

theorem allowed_keys_iff (value : Json) :
    Allowed "keys" value ↔ ∃ members, value = .object members ∧
      ∀ entry ∈ members, ∃ names, entry.2 = Json.ofStrings names ∧ "" ∉ names := by
  constructor
  · intro h
    generalize hname : "keys" = name at h
    cases h with
    | keys members hmembers => exact ⟨members, rfl, hmembers⟩
    | _ => simp at hname
  · rintro ⟨members, rfl, hmembers⟩
    exact .keys members hmembers

/-- The value is an object with allowed members only. -/
def Conforms (value : Json) : Prop :=
  ∃ members, value = .object members ∧ ∀ entry ∈ members, Allowed entry.1 entry.2

end Settings

namespace Schema

open Check

/-- The schema of the fields tests for arrays of strings that are not empty. -/
theorem tests_fields : fields.Tests fun value => ∃ names, value = Json.ofStrings names ∧ "" ∉ names := by
  apply ((tests_nonempty.ofKind .string).items.ofKind .array).congr
  intro value
  constructor
  · rintro ⟨harray, hitems⟩
    obtain ⟨items, rfl⟩ := (Kind.admits_array_iff value).1 harray
    have hall := hitems items rfl
    have hstrings : ∀ item ∈ items, ∃ s, item = Json.string s := by
      intro item hitem
      exact (Kind.admits_string_iff item).1 (hall item hitem).1
    obtain ⟨names, hnames⟩ := Json.exists_ofStrings hstrings
    refine ⟨names, hnames, ?_⟩
    -- an empty name would be an empty string among the items
    intro hempty
    cases hnames
    exact (hall (.string "") (List.mem_map_of_mem hempty)).2 rfl
  · rintro ⟨names, rfl, hempty⟩
    refine ⟨rfl, ?_⟩
    rintro _ ⟨⟩ item hitem
    obtain ⟨name, hname, rfl⟩ := List.mem_map.1 hitem
    refine ⟨rfl, ?_⟩
    rintro ⟨⟩
    exact hempty hname

theorem tests_unknownTypes :
    (Check.ofKind .string (.oneOf ["strict", "lenient"])).Tests (Settings.Allowed "unknownTypes") := by
  apply ((tests_oneOf _).ofKind .string).congr
  intro value
  rw [Settings.allowed_unknownTypes_iff, Kind.admits_string_iff]
  constructor
  · rintro ⟨-, s, hs, rfl⟩
    simpa using hs
  · rintro (rfl | rfl)
    · exact ⟨⟨_, rfl⟩, "strict", by simp, rfl⟩
    · exact ⟨⟨_, rfl⟩, "lenient", by simp, rfl⟩

theorem tests_maxDepth :
    (Check.ofKind .integer (.atLeast 1)).Tests (Settings.Allowed "maxDepth") := by
  apply ((tests_atLeast 1).ofKind .integer).congr
  intro value
  rw [Settings.allowed_maxDepth_iff, Kind.admits_integer_iff]
  constructor
  · rintro ⟨⟨n, rfl, k, hk⟩, hleast⟩
    have hle := hleast n rfl
    rw [hk] at hle
    exact ⟨n, rfl, k, hk, by exact_mod_cast hle⟩
  · rintro ⟨n, rfl, k, hk, hpos⟩
    refine ⟨⟨n, rfl, k, hk⟩, ?_⟩
    rintro _ ⟨⟩
    rw [hk]
    exact_mod_cast hpos

theorem tests_keys :
    (Check.ofKind .object (.members fun _ => some fields)).Tests (Settings.Allowed "keys") := by
  have hnames : TestsNames (fun _ => some fields)
      fun _ value => ∃ names, value = Json.ofStrings names ∧ "" ∉ names := by
    constructor
    · rintro _ ⟨⟩
    · rintro _ _ ⟨⟩
      exact tests_fields
  apply (hnames.members.ofKind .object).congr
  intro value
  rw [Settings.allowed_keys_iff, Kind.admits_object_iff]
  constructor
  · rintro ⟨⟨members, rfl⟩, hmembers⟩
    exact ⟨members, rfl, hmembers members rfl⟩
  · rintro ⟨members, rfl, hmembers⟩
    refine ⟨⟨members, rfl⟩, ?_⟩
    rintro _ ⟨⟩
    exact hmembers

/-- The check of each name tests for the values allowed for it. -/
theorem testsNames_member? : TestsNames member? Settings.Allowed := by
  constructor
  · intro name hnone value hallowed
    cases hallowed <;> simp [member?] at hnone
  · intro name check hsome
    simp only [member?] at hsome
    split at hsome
    · cases hsome
      apply (tests_pass.ofKind .string).congr
      intro value
      simp [Settings.allowed_schema_iff]
    · cases hsome
      exact tests_unknownTypes
    · cases hsome
      exact tests_maxDepth
    · cases hsome
      exact tests_keys
    · cases hsome

/-- The schema tests for the values that conform. -/
theorem tests_settings : settings.Tests Settings.Conforms := by
  apply (testsNames_member?.members.ofKind .object).congr
  intro value
  constructor
  · rintro ⟨hobject, hmembers⟩
    obtain ⟨members, rfl⟩ := (Kind.admits_object_iff value).1 hobject
    exact ⟨members, rfl, hmembers members rfl⟩
  · rintro ⟨members, rfl, hmembers⟩
    refine ⟨rfl, ?_⟩
    rintro _ ⟨⟩
    exact hmembers

end Schema

end SyntaxWalk
