import Mathlib
import SyntaxWalk.Proofs.Json.Reading
import SyntaxWalk.Proofs.Registry
import SyntaxWalk.Proofs.Settings.Schema
import SyntaxWalk.Settings.Load

/-!
# Which settings are accepted

The settings in a text pass through two descriptions of their format: the schema, and the reading of the
settings from a value. The reading alone takes more than the schema (arrays, a limit of null, a limit of
zero, empty names, unknown members), and the schema alone takes limits that the reading refuses. Of a value
that conforms to the schema the policy and the further types can always be read, so the reading fails only
because of the limit, and it fails exactly if the limit is not held as an unsigned integer of 64 bits
(`ofJson_of_conforms`).

From this follows what becomes of any text that is relaxed JSON (`ofText_outcome`).
-/

set_option autoImplicit false

namespace SyntaxWalk

namespace Settings

/-- The settings are those that the value gives: nothing else is set, and what is missing has its default. -/
structure TakenFrom (settings : Settings) (value : Json) : Prop where
  unknownTypes : settings.unknownTypes = .lenient ↔ value.get? "unknownTypes" = some (.string "lenient")
  maxDepth : ∀ depth : ℕ,
    settings.maxDepth = some depth ↔ value.get? "maxDepth" = some (.number (.int depth))
  keys : ∀ name names, settings.keys.get? name = some names ↔
    ∃ members, value.get? "keys" = some (.object members) ∧ (name, Json.ofStrings names) ∈ members
  baseDir : settings.baseDir = none

/-! ## Reading the parts -/

section Parts

variable {value? : Option Json}

theorem policyOf_of_allowed (h : ∀ value, value? = some value → Allowed "unknownTypes" value) :
    ∃ policy, policyOf value? = .ok policy ∧
      (policy = .lenient ↔ value? = some (.string "lenient")) := by
  cases value? with
  | none => exact ⟨.strict, rfl, by simp⟩
  | some value =>
    rcases (allowed_unknownTypes_iff value).1 (h value rfl) with rfl | rfl
    · exact ⟨.strict, rfl, by simp⟩
    · exact ⟨.lenient, rfl, by simp⟩

/-- An allowed limit can be read exactly if it is held as an unsigned integer of 64 bits. -/
theorem maxDepthOf_of_allowed (h : ∀ value, value? = some value → Allowed "maxDepth" value) :
    (∃ n, value? = some (.number n) ∧ ¬n.IsHeld ∧ maxDepthOf value? = .error ⟨.number n, "usize"⟩) ∨
      (∀ n, value? = some (.number n) → n.IsHeld) ∧ ∃ depth?, maxDepthOf value? = .ok depth? ∧
        ∀ depth : ℕ, depth? = some depth ↔ value? = some (.number (.int depth)) := by
  cases value? with
  | none =>
    right
    refine ⟨?_, none, rfl, ?_⟩ <;> simp
  | some value =>
    obtain ⟨n, rfl, -⟩ := (allowed_maxDepth_iff value).1 (h value rfl)
    cases hnat : n.toNat? with
    | none =>
      left
      refine ⟨n, rfl, (Number.toNat?_eq_none_iff n).1 hnat, ?_⟩
      simp [maxDepthOf, hnat]
    | some depth =>
      -- read before the number is known to be an integer, so that `2 ^ 64` is not computed with
      have hread : maxDepthOf (some (.number n)) = .ok (some depth) := by simp [maxDepthOf, hnat]
      obtain ⟨hlt, rfl⟩ := (Number.toNat?_eq_some_iff n depth).1 hnat
      right
      refine ⟨?_, some depth, hread, by simp⟩
      rintro _ ⟨⟩
      exact ⟨depth, hlt, rfl⟩

theorem keyEntriesOf_map (entries : Bindings (List String)) :
    keyEntriesOf (entries.map fun entry => (entry.1, Json.ofStrings entry.2)) = .ok entries := by
  induction entries with
  | nil => rfl
  | cons entry rest ih => simp [keyEntriesOf, ih]

/-- Members that are all lists of texts are the JSON form of some entries. -/
theorem exists_entries {members : Bindings Json}
    (h : ∀ entry ∈ members, ∃ names, entry.2 = Json.ofStrings names) :
    ∃ entries : Bindings (List String),
      members = entries.map fun entry => (entry.1, Json.ofStrings entry.2) := by
  induction members with
  | nil => exact ⟨[], rfl⟩
  | cons entry rest ih =>
    obtain ⟨⟨names, hnames⟩, hrest⟩ := List.forall_mem_cons.1 h
    obtain ⟨entries, rfl⟩ := ih hrest
    refine ⟨(entry.1, names) :: entries, ?_⟩
    rw [List.map_cons, ← hnames]

/-- Allowed further types can be read. -/
theorem keysOf_of_allowed (h : ∀ value, value? = some value → Allowed "keys" value)
    (hform : ∀ value, value? = some value → value.WellFormed) :
    ∃ keys, keysOf value? = .ok keys ∧ ∀ name names, keys.get? name = some names ↔
      ∃ members, value? = some (.object members) ∧ (name, Json.ofStrings names) ∈ members := by
  cases value? with
  | none => exact ⟨.empty, rfl, by simp⟩
  | some value =>
    obtain ⟨members, rfl, hmembers⟩ := (allowed_keys_iff value).1 (h value rfl)
    obtain ⟨entries, rfl⟩ := exists_entries fun entry hentry =>
      (hmembers entry hentry).imp fun _ hnames => hnames.1
    -- the members are sorted, so the map of the entries has each of them
    have hsorted : entries.Sorted := by
      cases hform _ rfl with
      | object hsorted _ => simpa [Bindings.Sorted, List.pairwise_map] using hsorted
    refine ⟨.ofList entries, ?_, ?_⟩
    · simp [keysOf, keyEntriesOf_map]
    · intro name names
      rw [NameMap.get?, hsorted.entries_ofList]
      constructor
      · intro hsome
        exact ⟨_, rfl, List.mem_map_of_mem (Bindings.mem_of_get? hsome)⟩
      · rintro ⟨_, ⟨⟩, hmem⟩
        obtain ⟨⟨name', names'⟩, hentry, hpair⟩ := List.mem_map.1 hmem
        obtain ⟨rfl, hnames⟩ := Prod.mk.inj hpair
        rw [← Json.ofStrings_inj hnames]
        exact hsorted.get?_of_mem hentry

end Parts

/-- Settings can be read from a value that conforms, unless the limit is not held as an unsigned integer of
64 bits. -/
theorem ofJson_of_conforms {value : Json} (hform : value.WellFormed) (h : Conforms value) :
    (∃ n, value.get? "maxDepth" = some (.number n) ∧ ¬n.IsHeld ∧
        ofJson value = .error ⟨.number n, "usize"⟩) ∨
      (∀ n, value.get? "maxDepth" = some (.number n) → n.IsHeld) ∧
        ∃ settings, ofJson value = .ok settings ∧ settings.TakenFrom value := by
  obtain ⟨members, rfl, hmembers⟩ := h
  have hallowed : ∀ name value, Bindings.get? name members = some value → Allowed name value :=
    fun name value hget => hmembers (name, value) (Bindings.mem_of_get? hget)
  have hvalues : ∀ name value, Bindings.get? name members = some value → value.WellFormed := by
    intro name value hget
    cases hform with
    | object _ hall => exact hall (name, value) (Bindings.mem_of_get? hget)
  -- of the three parts only the limit can be refused
  obtain ⟨policy, hpolicy, hlenient⟩ := policyOf_of_allowed (hallowed "unknownTypes")
  obtain ⟨keys, hkeys, hentries⟩ := keysOf_of_allowed (hallowed "keys") (hvalues "keys")
  rcases maxDepthOf_of_allowed (hallowed "maxDepth") with
    ⟨n, hn, hheld, herror⟩ | ⟨hheld, depth?, hdepth, hlimit⟩
  · left
    refine ⟨n, hn, hheld, ?_⟩
    simp [ofJson, ofParts, hkeys, herror, bind, Except.bind]
  · right
    refine ⟨hheld, ⟨policy, depth?, keys, none⟩, ?_, ⟨hlenient, hlimit, hentries, rfl⟩⟩
    simp [ofJson, ofParts, hkeys, hdepth, hpolicy, bind, Except.bind, pure, Except.pure]

/-- The limit of a value that conforms is not held exactly if it is written in another form. -/
theorem not_isHeld_iff_of_conforms {value : Json} (hform : value.WellFormed) (h : Conforms value)
    {n : Number} (hn : value.get? "maxDepth" = some (.number n)) :
    ¬n.IsHeld ↔ ∃ l : Literal, l.toNumber? = some n ∧
      (l.fraction ≠ [] ∨ l.exponent ≠ none ∨ 2 ^ 64 ≤ Literal.ofDigits l.whole) := by
  obtain ⟨members, rfl, hmembers⟩ := h
  have hmem := Bindings.mem_of_get? hn
  obtain ⟨_, ⟨⟩, k, hk, hpos⟩ := (allowed_maxDepth_iff _).1 (hmembers _ hmem)
  have hread : n.IsRead := by
    cases hform with
    | object _ hall =>
      cases hall _ hmem with
      | number hread => exact hread
  apply hread.not_isHeld_iff
  rw [hk]
  exact_mod_cast hpos

/-! ## The value of a text -/

theorem ofValue_of_not_conforms {value : Json} (h : ¬Conforms value) :
    ∃ found, ofValue value = .error (.violation found) := by
  cases hcheck : Schema.settings value [] with
  | none => exact absurd ((Schema.tests_settings value []).1 hcheck) h
  | some found => exact ⟨found, by simp [ofValue, hcheck]⟩

theorem ofValue_of_conforms {value : Json} (h : Conforms value) :
    ofValue value = (ofJson value).mapError .mismatch := by
  have hcheck := (Schema.tests_settings value []).2 h
  cases hread : ofJson value <;> simp [ofValue, hcheck, hread, Except.mapError]

/-- The settings of a text are those of the value that it spells out. -/
theorem ofText_eq_ofValue {text : String} {value : Json} (complaint : String → String)
    (h : (Json.parseRelaxed? text).map (·.getD (.object [])) = some value) :
    ofText complaint text = ofValue value := by
  obtain ⟨value?, hparse, rfl⟩ := Option.map_eq_some_iff.1 h
  simp [ofText, hparse]

/-- The value that a settings text spells out is well formed. -/
theorem wellFormed_of_text {text : String} {value : Json}
    (h : (Json.parseRelaxed? text).map (·.getD (.object [])) = some value) : value.WellFormed := by
  obtain ⟨value?, hparse, rfl⟩ := Option.map_eq_some_iff.1 h
  cases value? with
  | none => exact .emptyObject
  | some value => exact Json.parseRelaxed?_wellFormed hparse

/-- What becomes of a settings text, by the value that it spells out, which is the empty object for a text
without a token. The text is refused by the schema exactly if the value does not conform; no settings can be
read exactly if the value conforms but the limit is not held as an unsigned integer of 64 bits, that is, it is
written with a fraction, with an exponent or as at least `2 ^ 64`; and in all other cases the text gives the
settings in the value and no others. -/
theorem ofText_outcome {text : String} {value : Json} (complaint : String → String)
    (hread : (Json.parseRelaxed? text).map (·.getD (.object [])) = some value) :
    ((∃ found, ofText complaint text = .error (.violation found)) ↔ ¬Conforms value) ∧
    ((∃ found, ofText complaint text = .error (.mismatch found)) ↔
      Conforms value ∧ ∃ n, value.get? "maxDepth" = some (.number n) ∧ ¬n.IsHeld) ∧
    (Conforms value → (∀ n, value.get? "maxDepth" = some (.number n) → n.IsHeld) →
      ∃ settings, ofText complaint text = .ok settings ∧ settings.TakenFrom value) ∧
    (Conforms value → ∀ n, value.get? "maxDepth" = some (.number n) →
      (¬n.IsHeld ↔ ∃ l : Literal, l.toNumber? = some n ∧
        (l.fraction ≠ [] ∨ l.exponent ≠ none ∨ 2 ^ 64 ≤ Literal.ofDigits l.whole))) := by
  have hform := wellFormed_of_text hread
  rw [ofText_eq_ofValue complaint hread]
  by_cases hconforms : Conforms value
  · have hwritten := fun n hn => @not_isHeld_iff_of_conforms _ hform hconforms n hn
    rw [ofValue_of_conforms hconforms]
    rcases ofJson_of_conforms hform hconforms with
      ⟨n, hn, hheld, herror⟩ | ⟨hheld, settings, hsettings, htaken⟩
    · rw [herror]
      refine ⟨by simp [hconforms, Except.mapError], ?_, ?_, fun _ => hwritten⟩
      · exact ⟨fun _ => ⟨hconforms, n, hn, hheld⟩, fun _ => ⟨_, rfl⟩⟩
      · intro _ hall
        exact absurd (hall n hn) hheld
    · rw [hsettings]
      refine ⟨by simp [hconforms, Except.mapError], ?_, fun _ _ => ⟨settings, rfl, htaken⟩,
        fun _ => hwritten⟩
      constructor
      · rintro ⟨_, ⟨⟩⟩
      · rintro ⟨-, n, hn, hnot⟩
        exact absurd (hheld n hn) hnot
  · obtain ⟨found, hfound⟩ := ofValue_of_not_conforms hconforms
    rw [hfound]
    refine ⟨⟨fun _ => hconforms, fun _ => ⟨found, rfl⟩⟩, by simp [hconforms], ?_, ?_⟩
    · intro h
      exact absurd h hconforms
    · intro h
      exact absurd h hconforms

/-- A text in which the limit is written with a point. -/
def pointedText : String :=
  "\x7bmaxDepth:2.0\x7d"

/-- The value of the text: the limit is the binary64 number two. -/
def pointedValue : Json :=
  .object [("maxDepth", .number (.float ⟨false, 4503599627370496, -51⟩))]

/-- The literal of the text stands for a binary64 number, although its value is a whole number. -/
theorem next?_pointed : Json.Relaxed.lexer.next? ['2', '.', '0', '\x7d'] =
    some (some (.number "2.0" (.number (.float ⟨false, 4503599627370496, -51⟩))), ['\x7d']) := by
  have hvalue : Literal.toNumber? ⟨false, [2], [0], none⟩ =
      some (.float ⟨false, 4503599627370496, -51⟩) := by decide +kernel
  have hliteral : Literal.take? false ['2', '.', '0', '\x7d'] =
      some (⟨false, [2], [0], none⟩, ['\x7d']) := rfl
  show Json.Relaxed.takeNumber? ['2', '.', '0', '\x7d'] = _
  simp [Json.Relaxed.takeNumber?, Json.Relaxed.takeUnsigned?, Literal.takeSign, hliteral, hvalue]

/-- The text spells out the value. -/
theorem parseRelaxed?_pointedText : Json.parseRelaxed? pointedText = some (some pointedValue) := by
  have hopen : Json.Relaxed.lexer.next? pointedText.toList =
      some (some .openBrace, "maxDepth:2.0\x7d".toList) := rfl
  have hword : Json.Relaxed.lexer.next? "maxDepth:2.0\x7d".toList =
      some (some (.word "maxDepth"), ":2.0\x7d".toList) := rfl
  have hcolon : Json.Relaxed.lexer.next? ":2.0\x7d".toList =
      some (some .colon, ['2', '.', '0', '\x7d']) := rfl
  have hclose : Json.Relaxed.lexer.next? ['\x7d'] = some (some .closeBrace, []) := rfl
  have htokens : Json.Relaxed.lexer.tokens pointedText = some [.openBrace, .word "maxDepth", .colon,
      .number "2.0" (.number (.float ⟨false, 4503599627370496, -51⟩)), .closeBrace] := by
    rw [Json.Lexer.tokens, Json.Lexer.tokensAfter_of_next _ _ hopen,
      Json.Lexer.tokensAfter_of_next _ _ hword, Json.Lexer.tokensAfter_of_next _ _ hcolon,
      Json.Lexer.tokensAfter_of_next _ _ next?_pointed,
      Json.Lexer.tokensAfter_of_next _ _ hclose, Json.Lexer.tokensAfter_nil]
    rfl
  simp only [Json.parseRelaxed?, htokens]
  rfl

theorem conforms_pointedValue : Conforms pointedValue := by
  refine ⟨_, rfl, ?_⟩
  simp only [List.forall_mem_singleton]
  apply Allowed.maxDepth _ 2
  · norm_num [Number.toRat, Binary64.toRat]
  · norm_num

/-- The text follows the schema, but no settings can be read from it. -/
theorem ofText_outcome_pointedText :
    (Json.parseRelaxed? pointedText).map (·.getD (.object [])) = some pointedValue ∧
      ∃ found, ofText id pointedText = .error (.mismatch found) := by
  have hread : (Json.parseRelaxed? pointedText).map (·.getD (.object [])) = some pointedValue := by
    rw [parseRelaxed?_pointedText]
    rfl
  refine ⟨hread, (ofText_outcome id hread).2.1.2 ⟨conforms_pointedValue, _, rfl, ?_⟩⟩
  rintro ⟨k, -, ⟨⟩⟩

end Settings

end SyntaxWalk
