import Mathlib
import SyntaxWalk.Json.Relaxed
import SyntaxWalk.Proofs.Number

/-!
# What a text gives

A value that was read from a text has a form that an arbitrary value need not have: the names of the members
of each object increase strictly, and each number is that of a decimal literal or a hexadecimal integer below
`2 ^ 63` (`Json.WellFormed`). The form is an invariant of the assembly of a value (`Assembly.WellFormed`):
each token that a text gives keeps it, so it holds of the value in the end (`parseRelaxed?_wellFormed`).
-/

set_option autoImplicit false

namespace SyntaxWalk

/-- The number is one that a text can give. -/
def Number.IsRead (n : Number) : Prop :=
  (∃ l : Literal, l.toNumber? = some n) ∨ ∃ i : ℤ, i.natAbs < 2 ^ 63 ∧ n = .int i

/-- A positive number that was read is not held as an unsigned integer of 64 bits exactly when it comes from
a literal with a fraction, with an exponent, or of at least `2 ^ 64`. -/
theorem Number.IsRead.not_isHeld_iff {n : Number} (h : n.IsRead) (hpos : 0 < n.toRat) :
    ¬n.IsHeld ↔ ∃ l : Literal, l.toNumber? = some n ∧
      (l.fraction ≠ [] ∨ l.exponent ≠ none ∨ 2 ^ 64 ≤ Literal.ofDigits l.whole) := by
  have hliteral : ∀ l : Literal, l.toNumber? = some n → (¬n.IsHeld ↔
      l.fraction ≠ [] ∨ l.exponent ≠ none ∨ 2 ^ 64 ≤ Literal.ofDigits l.whole) := by
    intro l hl
    rw [Literal.isHeld_iff hl hpos, not_and_or, not_and_or, Nat.not_lt]
  constructor
  · intro hheld
    rcases h with ⟨l, hl⟩ | ⟨i, hi, rfl⟩
    · exact ⟨l, hl, (hliteral l hl).1 hheld⟩
    · -- a positive hexadecimal integer is always held
      have hpositive : 0 < i := Int.cast_pos.1 hpos
      exact absurd ⟨i.toNat, by omega, by rw [Int.toNat_of_nonneg hpositive.le]⟩ hheld
  · rintro ⟨l, hl, hshape⟩
    exact (hliteral l hl).2 hshape

namespace Json

/-- A value in the form that reading gives. -/
inductive WellFormed : Json → Prop
  | null : WellFormed .null
  | bool (b : Bool) : WellFormed (.bool b)
  | number {n : Number} (h : n.IsRead) : WellFormed (.number n)
  | string (s : String) : WellFormed (.string s)
  | array {items : List Json} (h : ∀ item ∈ items, WellFormed item) : WellFormed (.array items)
  | object {members : Bindings Json} (hsorted : members.Sorted)
      (h : ∀ entry ∈ members, WellFormed entry.2) : WellFormed (.object members)

namespace WellFormed

theorem emptyObject : WellFormed (.object []) := by
  apply WellFormed.object
  · exact List.Pairwise.nil
  · simp

/-- Binding a name in an object keeps the form. -/
theorem set {members : Bindings Json} {value : Json} (h : WellFormed (.object members))
    (hvalue : WellFormed value) (name : String) :
    WellFormed (.object (members.set name value)) := by
  cases h with
  | object hsorted hmembers =>
    apply WellFormed.object hsorted.set
    intro entry hentry
    rcases Bindings.mem_set hentry with rfl | hold
    · exact hvalue
    · exact hmembers entry hold

theorem cons {items : List Json} {value : Json} (h : WellFormed (.array items))
    (hvalue : WellFormed value) : WellFormed (.array (value :: items)) := by
  cases h with
  | array hitems => exact .array (List.forall_mem_cons.2 ⟨hvalue, hitems⟩)

theorem reverse {items : List Json} (h : WellFormed (.array items)) :
    WellFormed (.array items.reverse) := by
  cases h with
  | array hitems =>
    apply WellFormed.array
    intro item hitem
    exact hitems item (List.mem_reverse.1 hitem)

end WellFormed

/-! ## The assembly of a value -/

/-- The value of the token, if it has one, is well formed. -/
def Token.WellFormed : Token → Prop
  | .constant value => value.WellFormed
  | .number _ value => value.WellFormed
  | _ => True

/-- What the open container holds is well formed. -/
def Frame.WellFormed : Frame → Prop
  | .array items => (Json.array items).WellFormed
  | .object members => (Json.object members).WellFormed
  | .member members _ => (Json.object members).WellFormed

namespace Assembly

/-- All that has been put together so far is well formed. -/
structure WellFormed (s : Assembly) : Prop where
  frames : ∀ frame ∈ s.frames, frame.WellFormed
  value : ∀ value, s.value? = some value → value.WellFormed

variable {grammar : Grammar} {frames : List Frame} {s next : Assembly} {token : Token}

/-- As long as the value is not complete, only the open containers matter. -/
theorem WellFormed.of_frames {expected : Expected} (h : ∀ frame ∈ frames, frame.WellFormed)
    (hvalue : value? ⟨frames, expected⟩ = none) : WellFormed ⟨frames, expected⟩ := by
  refine ⟨h, ?_⟩
  intro value hsome
  rw [hvalue] at hsome
  cases hsome

/-- Putting a value into the innermost container keeps the form. -/
theorem place_wellFormed {value : Json} (hvalue : value.WellFormed)
    (hframes : ∀ frame ∈ frames, frame.WellFormed) (h : place value frames = some next) :
    next.WellFormed := by
  cases frames with
  | nil =>
    cases h
    refine ⟨hframes, ?_⟩
    rintro _ ⟨⟩
    exact hvalue
  | cons frame rest =>
    obtain ⟨hframe, hrest⟩ := List.forall_mem_cons.1 hframes
    cases frame with
    | array items =>
      cases h
      exact .of_frames (List.forall_mem_cons.2 ⟨Json.WellFormed.cons hframe hvalue, hrest⟩) rfl
    | object members => cases h
    | member members name =>
      cases h
      exact .of_frames (List.forall_mem_cons.2 ⟨Json.WellFormed.set hframe hvalue name, hrest⟩) rfl

theorem beginValue_wellFormed (htoken : token.WellFormed)
    (hframes : ∀ frame ∈ frames, frame.WellFormed) (h : beginValue frames token = some next) :
    next.WellFormed := by
  cases token with
  | openBrace =>
    cases h
    exact .of_frames (List.forall_mem_cons.2 ⟨Json.WellFormed.emptyObject, hframes⟩) rfl
  | openBracket =>
    cases h
    exact .of_frames (List.forall_mem_cons.2 ⟨Json.WellFormed.array (by simp), hframes⟩) rfl
  | string s => exact place_wellFormed (.string s) hframes h
  | constant value => exact place_wellFormed htoken hframes h
  | number written value => exact place_wellFormed htoken hframes h
  | _ => cases h

theorem beginMember_wellFormed (hframes : ∀ frame ∈ frames, frame.WellFormed)
    (h : beginMember grammar frames token = some next) : next.WellFormed := by
  cases token with
  | string s =>
    cases h
    exact .of_frames hframes rfl
  | word s =>
    obtain ⟨-, ⟨⟩⟩ := Option.ite_none_right_eq_some.1 h
    exact .of_frames hframes rfl
  | number written value =>
    obtain ⟨-, ⟨⟩⟩ := Option.ite_none_right_eq_some.1 h
    exact .of_frames hframes rfl
  | _ => cases h

theorem close_wellFormed (hframes : ∀ frame ∈ frames, frame.WellFormed)
    (h : close frames token = some next) : next.WellFormed := by
  simp only [close] at h
  split at h
  · obtain ⟨hframe, hrest⟩ := List.forall_mem_cons.1 hframes
    exact place_wellFormed (Json.WellFormed.reverse hframe) hrest h
  · obtain ⟨hframe, hrest⟩ := List.forall_mem_cons.1 hframes
    exact place_wellFormed hframe hrest h
  · cases h

theorem beginPart_wellFormed (htoken : token.WellFormed)
    (hframes : ∀ frame ∈ frames, frame.WellFormed)
    (h : beginPart grammar frames token = some next) : next.WellFormed := by
  simp only [beginPart] at h
  split at h
  · exact beginValue_wellFormed htoken hframes h
  · exact beginMember_wellFormed hframes h
  · cases h

/-- What follows a comma is not the end. -/
theorem value?_afterComma {expected : Expected} (h : afterComma grammar frames = some expected) :
    value? ⟨frames, expected⟩ = none := by
  simp only [afterComma] at h
  split at h
  · cases grammar <;> cases h <;> rfl
  · cases grammar <;> cases h <;> rfl
  · cases h

/-- Each token keeps the form. -/
theorem WellFormed.step (hs : s.WellFormed) (htoken : token.WellFormed)
    (h : Assembly.step grammar s token = some next) : next.WellFormed := by
  simp only [Assembly.step] at h
  split at h
  · exact beginValue_wellFormed htoken hs.frames h
  · exact close_wellFormed hs.frames h
  · exact beginValue_wellFormed htoken hs.frames h
  · exact beginMember_wellFormed hs.frames h
  · exact close_wellFormed hs.frames h
  · exact beginMember_wellFormed hs.frames h
  · -- after the colon the object waits for the value of the member
    split at h
    · rename_i hframes
      cases h
      have hall := hs.frames
      rw [hframes] at hall
      obtain ⟨hframe, hrest⟩ := List.forall_mem_cons.1 hall
      exact .of_frames (List.forall_mem_cons.2 ⟨hframe, hrest⟩) rfl
    · cases h
  · cases h
  · obtain ⟨expected, hexpected, rfl⟩ := Option.map_eq_some_iff.1 h
    exact .of_frames hs.frames (value?_afterComma hexpected)
  · exact close_wellFormed hs.frames h
  · exact close_wellFormed hs.frames h
  · obtain ⟨-, hpart⟩ := Option.ite_none_right_eq_some.1 h
    exact beginPart_wellFormed htoken hs.frames hpart
  · cases h

/-- Tokens keep the form, one after the other. -/
theorem WellFormed.foldlM {tokens : List Token} (hs : s.WellFormed)
    (htokens : ∀ token ∈ tokens, token.WellFormed)
    (h : tokens.foldlM (Assembly.step grammar) s = some next) : next.WellFormed := by
  induction tokens generalizing s with
  | nil =>
    cases h
    exact hs
  | cons token rest ih =>
    obtain ⟨htoken, hrest⟩ := List.forall_mem_cons.1 htokens
    rw [List.foldlM_cons] at h
    obtain ⟨mid, hmid, hnext⟩ := Option.bind_eq_some_iff.1 h
    exact ih (hs.step htoken hmid) hrest hnext

end Assembly

/-- The value of well-formed tokens is well formed. -/
theorem assemble_wellFormed {grammar : Grammar} {tokens : List Token} {value : Json}
    (htokens : ∀ token ∈ tokens, token.WellFormed) (h : assemble grammar tokens = some value) :
    value.WellFormed := by
  obtain ⟨last, hlast, hvalue⟩ := Option.bind_eq_some_iff.1 h
  have hstart : Assembly.start.WellFormed := .of_frames (by simp) rfl
  exact (hstart.foldlM htokens hlast).value value hvalue

/-! ## The tokens of a text -/

/-- What holds of each token that a rule reads holds of all tokens of a text. -/
theorem Lexer.forall_tokensAfter {lexer : Lexer} {P : Token → Prop}
    (hnext : ∀ {cs rest : List Char} {token : Token}, lexer.next? cs = some (some token, rest) → P token)
    {read : List Token} {cs : List Char} {tokens : List Token} (hread : ∀ token ∈ read, P token)
    (h : lexer.tokensAfter read cs = some tokens) : ∀ token ∈ tokens, P token := by
  fun_induction lexer.tokensAfter read cs with
  | case1 read cs hempty =>
    cases h
    intro token htoken
    exact hread token (List.mem_reverse.1 htoken)
  | case2 => cases h
  | case3 read cs hempty rest hspace ih => exact ih hread h
  | case4 read cs hempty token rest hfound ih =>
    exact ih (List.forall_mem_cons.2 ⟨hnext hfound, hread⟩) h

theorem punctuation?_wellFormed {c : Char} {mark : Token} (h : punctuation? c = some mark) :
    mark.WellFormed := by
  simp only [punctuation?] at h
  split at h <;> cases h <;> trivial

namespace Relaxed

theorem takeComment?_ne (cs rest : List Char) (token : Token) :
    takeComment? cs ≠ some (some token, rest) := by
  intro h
  simp only [takeComment?] at h
  split at h
  · cases h
  · obtain ⟨after, -, ⟨⟩⟩ := Option.map_eq_some_iff.1 h
  · cases h

/-- A hexadecimal integer is one that a text can give. -/
theorem isRead_of_takeHex? {negative : Bool} {cs rest : List Char} {n : Number}
    (h : takeHex? negative cs = some (some n, rest)) : n.IsRead := by
  simp only [takeHex?] at h
  split at h
  · cases h
  · simp only [Option.some.injEq, Prod.mk.injEq, hexNumber?, Nat.pow_eq,
      Option.ite_none_right_eq_some] at h
    obtain ⟨⟨hlt, rfl⟩, -⟩ := h
    refine Or.inr ⟨_, ?_, rfl⟩
    split <;> omega

theorem isRead_of_takeUnsigned? {negative : Bool} {cs rest : List Char} {n : Number}
    (h : takeUnsigned? negative cs = some (some n, rest)) : n.IsRead := by
  simp only [takeUnsigned?] at h
  split at h
  · exact isRead_of_takeHex? h
  · exact isRead_of_takeHex? h
  · obtain ⟨found, -, hpair⟩ := Option.map_eq_some_iff.1 h
    exact Or.inl ⟨found.1, congrArg Prod.fst hpair⟩

/-- The token of a number is well formed; without a value it stands for a string. -/
theorem takeNumber?_wellFormed {cs rest : List Char} {token : Token}
    (h : takeNumber? cs = some (some token, rest)) : token.WellFormed := by
  obtain ⟨⟨n?, after⟩, hfound, hpair⟩ := Option.map_eq_some_iff.1 h
  cases n? with
  | some n =>
    cases hpair
    exact .number (isRead_of_takeUnsigned? hfound)
  | none =>
    cases hpair
    exact .string _

theorem takeConstantOrWord?_wellFormed {cs rest : List Char} {token : Token}
    (h : takeConstantOrWord? cs = some (some token, rest)) : token.WellFormed := by
  simp only [takeConstantOrWord?, takeWord?] at h
  split at h
  · cases h
    exact .bool true
  · split at h
    · cases h
      exact .bool false
    · split at h
      · cases h
        exact .null
      · obtain ⟨-, ⟨⟩⟩ := Option.ite_none_right_eq_some.1 h
        trivial

/-- Each token of the relaxed notation is well formed. -/
theorem next?_wellFormed {cs rest : List Char} {token : Token}
    (h : next? cs = some (some token, rest)) : token.WellFormed := by
  simp only [next?] at h
  split at h
  · cases h
  · split at h
    · cases h
    · split at h
      · rename_i mark hmark
        cases h
        exact punctuation?_wellFormed hmark
      · split at h
        · obtain ⟨found, -, ⟨⟩⟩ := Option.map_eq_some_iff.1 h
          trivial
        · split at h
          · exact absurd h (takeComment?_ne _ _ _)
          · split at h
            · exact takeNumber?_wellFormed h
            · exact takeConstantOrWord?_wellFormed h

end Relaxed

/-- The value of a relaxed text is well formed. -/
theorem parseRelaxed?_wellFormed {text : String} {value : Json}
    (h : parseRelaxed? text = some (some value)) : value.WellFormed := by
  obtain ⟨tokens, htokens, hrest⟩ := Option.bind_eq_some_iff.1 h
  have hall : ∀ token ∈ tokens, token.WellFormed :=
    Lexer.forall_tokensAfter Relaxed.next?_wellFormed (by simp) htokens
  split at hrest
  · cases hrest
  · obtain ⟨found, hfound, hsome⟩ := Option.bind_eq_some_iff.1 hrest
    cases hsome
    exact assemble_wellFormed hall hfound

end Json

end SyntaxWalk
