import Mathlib
import SyntaxWalk.Proofs.Settings.Acceptance

/-!
# Writing settings and reading them again

The JSON form of settings leaves out what has its default value, and the reading fills in the default of what
is missing. The two are inverse for all settings whose limit fits in 64 bits, up to the directory, which is not
written (`ofJson_toJson`).

Between the two may stand the schema, which was written apart from both. It refuses the forms of some settings
that can be built and read, those with a limit of zero or with an empty field name (`conforms_toJson_iff`). A
form that it lets through is always read back (`read_back`).
-/

set_option autoImplicit false

namespace SyntaxWalk

namespace Settings

variable (settings : Settings)

/-! ## The members of the written form -/

/-- The further types as a member, which is missing if there are none. -/
def keysMember? : Option Json :=
  if settings.keys.isEmpty then none else some (keysToJson settings.keys)

/-- The written form has three members at most. -/
theorem toJson_eq : settings.toJson = .object (
    settings.keysMember?.toList.map (fun value => ("keys", value)) ++
      settings.maxDepth.toList.map (fun depth => ("maxDepth", Json.ofNat depth)) ++
      [("unknownTypes", .string settings.unknownTypes.name)]) := by
  rw [toJson, keysMember?]
  cases settings.keys.isEmpty <;> cases settings.maxDepth <;> rfl

/-- What a written form binds: each part under its own name. -/
theorem mem_toJson {members : Bindings Json} (h : settings.toJson = .object members)
    (name : String) (value : Json) :
    (name, value) ∈ members ↔
      name = "keys" ∧ settings.keysMember? = some value ∨
      name = "maxDepth" ∧ settings.maxDepth.map Json.ofNat = some value ∨
      name = "unknownTypes" ∧ value = .string settings.unknownTypes.name := by
  rw [toJson_eq] at h
  cases h
  simp only [List.mem_append, List.mem_map, Option.mem_toList, Prod.mk.injEq,
    List.mem_singleton, or_assoc, Option.map_eq_some_iff]
  constructor
  · rintro (⟨_, hvalue, rfl, rfl⟩ | ⟨depth, hdepth, rfl, rfl⟩ | ⟨rfl, rfl⟩)
    · exact .inl ⟨rfl, hvalue⟩
    · exact .inr (.inl ⟨rfl, depth, hdepth, rfl⟩)
    · exact .inr (.inr ⟨rfl, rfl⟩)
  · rintro (⟨rfl, hvalue⟩ | ⟨rfl, depth, hdepth, rfl⟩ | ⟨rfl, rfl⟩)
    · exact .inl ⟨_, hvalue, rfl, rfl⟩
    · exact .inr (.inl ⟨depth, hdepth, rfl, rfl⟩)
    · exact .inr (.inr ⟨rfl, rfl⟩)

/-- The reading looks up each part under the name under which it was written. -/
theorem ofJson_toJson_eq_ofParts : ofJson settings.toJson =
    ofParts (some (.string settings.unknownTypes.name)) (settings.maxDepth.map Json.ofNat)
      settings.keysMember? := by
  rw [toJson_eq]
  cases settings.keysMember? <;> cases settings.maxDepth <;> rfl

/-! ## Reading without the schema -/

theorem policyOf_name (policy : UnknownTypes) : policyOf (some (.string policy.name)) = .ok policy := by
  cases policy <;> rfl

/-- A limit that fits in 64 bits is read back. -/
theorem maxDepthOf_ofNat {depth? : Option ℕ} (h : ∀ depth, depth? = some depth → depth < 2 ^ 64) :
    maxDepthOf (depth?.map Json.ofNat) = .ok depth? := by
  cases depth? with
  | none => rfl
  | some depth =>
    -- the number is kept abstract, so that `2 ^ 64` is not computed with
    obtain ⟨n, hform, hread⟩ : ∃ n, Json.ofNat depth = .number n ∧ n.toNat? = some depth :=
      ⟨.int depth, rfl, (Number.toNat?_eq_some_iff _ depth).2 ⟨h depth rfl, rfl⟩⟩
    rw [Option.map_some, hform]
    simp [maxDepthOf, hread]

/-- The further types are read back, also if they were left out because there are none. -/
theorem keysOf_keysMember? : keysOf settings.keysMember? = .ok settings.keys := by
  rw [keysMember?]
  split
  · -- nothing was written, and the default of a missing member is the empty map
    rename_i hempty
    have hkeys : settings.keys = .empty := by
      apply NameMap.ext_get?
      intro name
      rw [NameMap.get?, List.isEmpty_iff.1 hempty]
      rfl
    rw [hkeys]
    rfl
  · -- the entries were written in order, so that inserting them one by one changes nothing
    have hentries : NameMap.ofList settings.keys.entries = settings.keys := by
      apply NameMap.ext_get?
      intro name
      rw [NameMap.get?, settings.keys.sorted.entries_ofList]
      rfl
    simp [keysOf, keysToJson, keyEntriesOf_map, hentries]

/-- Settings are read back from their JSON form, without the directory. -/
theorem ofJson_toJson (hdepth : ∀ depth, settings.maxDepth = some depth → depth < 2 ^ 64) :
    ofJson settings.toJson = .ok { settings with baseDir := none } := by
  rw [ofJson_toJson_eq_ofParts, ofParts, keysOf_keysMember?, maxDepthOf_ofNat hdepth, policyOf_name]
  rfl

/-! ## The schema in between -/

/-- The settings can be written in a form that follows the schema: the limit is not zero, and no field has
the empty name. -/
def IsWritable : Prop :=
  settings.maxDepth ≠ some 0 ∧ ∀ entry ∈ settings.keys.entries, "" ∉ entry.2

theorem allowed_name (policy : UnknownTypes) : Allowed "unknownTypes" (.string policy.name) := by
  cases policy
  · exact .strict
  · exact .lenient

theorem allowed_ofNat_iff (depth : ℕ) : Allowed "maxDepth" (Json.ofNat depth) ↔ depth ≠ 0 := by
  rw [allowed_maxDepth_iff]
  constructor
  · rintro ⟨_, ⟨⟩, k, hk, hpos⟩ rfl
    have hzero : k = 0 := by simpa [Number.toRat, eq_comm] using hk
    omega
  · intro hne
    exact ⟨_, rfl, depth, rfl, by omega⟩

/-- Written further types follow the schema exactly if no field has the empty name. -/
theorem allowed_keysToJson_iff (keys : NameMap (List String)) :
    Allowed "keys" (keysToJson keys) ↔ ∀ entry ∈ keys.entries, "" ∉ entry.2 := by
  simp only [allowed_keys_iff, keysToJson, Json.object.injEq, exists_eq_left', List.forall_mem_map]
  apply forall₂_congr
  intro entry _
  constructor
  · rintro ⟨names, hnames, hempty⟩
    rwa [Json.ofStrings_inj hnames]
  · intro hempty
    exact ⟨entry.2, rfl, hempty⟩

theorem allowed_keysMember?_iff :
    (∀ value, settings.keysMember? = some value → Allowed "keys" value) ↔
      ∀ entry ∈ settings.keys.entries, "" ∉ entry.2 := by
  rw [keysMember?]
  split
  · rename_i hempty
    -- nothing is written, and there is no field
    simp [List.isEmpty_iff.1 hempty]
  · simp [allowed_keysToJson_iff]

/-- The written form follows the schema exactly if the limit is not zero and no field has the empty name. -/
theorem conforms_toJson_iff : Conforms settings.toJson ↔ settings.IsWritable := by
  obtain ⟨members, hmembers⟩ : ∃ members, settings.toJson = .object members := ⟨_, toJson_eq settings⟩
  have hmem := settings.mem_toJson hmembers
  rw [IsWritable, ← allowed_keysMember?_iff]
  constructor
  · rintro ⟨_, hobject, hall⟩
    cases hmembers.symm.trans hobject
    constructor
    · -- a limit of zero is written, and the schema does not allow it
      intro hzero
      refine (allowed_ofNat_iff 0).1 ?_ rfl
      exact hall _ ((hmem _ _).2 (.inr (.inl ⟨rfl, by rw [hzero]; rfl⟩)))
    · intro value hvalue
      exact hall _ ((hmem _ _).2 (.inl ⟨rfl, hvalue⟩))
  · rintro ⟨hdepth, hkeys⟩
    refine ⟨members, hmembers, ?_⟩
    rintro ⟨name, value⟩ hentry
    rcases (hmem name value).1 hentry with ⟨rfl, hvalue⟩ | ⟨rfl, hvalue⟩ | ⟨rfl, rfl⟩
    · exact hkeys value hvalue
    · obtain ⟨depth, hsome, rfl⟩ := Option.map_eq_some_iff.1 hvalue
      refine (allowed_ofNat_iff depth).2 ?_
      rintro rfl
      exact hdepth hsome
    · exact allowed_name _

/-- Settings and their JSON form, for any policy, any limit of 64 bits or none, and any further types. Without
the schema the settings are read back, up to the directory. With the schema before the reading they are read
back exactly if the limit is not zero and no field has the empty name; otherwise the form violates the schema,
so that a written limit or field is never found unreadable after the schema has let it through. -/
theorem read_back (hdepth : ∀ depth, settings.maxDepth = some depth → depth < 2 ^ 64) :
    ofJson settings.toJson = .ok { settings with baseDir := none } ∧
    (ofValue settings.toJson = .ok { settings with baseDir := none } ↔ settings.IsWritable) ∧
    (¬settings.IsWritable → ∃ found, ofValue settings.toJson = .error (.violation found)) := by
  have hread := settings.ofJson_toJson hdepth
  rw [← conforms_toJson_iff]
  refine ⟨hread, ⟨?_, ?_⟩, ofValue_of_not_conforms⟩
  · intro hok
    by_contra hnot
    obtain ⟨found, hfound⟩ := ofValue_of_not_conforms hnot
    rw [hfound] at hok
    cases hok
  · intro h
    rw [ofValue_of_conforms h, hread]
    rfl

/-- Lenient settings with the greatest limit of 64 bits and a type in which one field has the empty name. -/
def unnamedField : Settings where
  unknownTypes := .lenient
  maxDepth := some (2 ^ 64 - 1)
  keys := .ofList [("Pair", ["left", ""])]

/-- The settings are read back without the schema, but the schema refuses their form. -/
theorem read_back_unnamedField :
    (∀ depth, unnamedField.maxDepth = some depth → depth < 2 ^ 64) ∧
    ofJson unnamedField.toJson = .ok unnamedField ∧
    ∃ found, ofValue unnamedField.toJson = .error (.violation found) := by
  have hdepth : ∀ depth, unnamedField.maxDepth = some depth → depth < 2 ^ 64 := by
    rintro _ ⟨⟩
    norm_num
  have hentry : ("Pair", ["left", ""]) ∈ unnamedField.keys.entries := by decide
  obtain ⟨hread, -, hviolation⟩ := read_back unnamedField hdepth
  refine ⟨hdepth, hread, hviolation ?_⟩
  rintro ⟨-, hnames⟩
  exact hnames _ hentry (by decide)

end Settings

end SyntaxWalk
