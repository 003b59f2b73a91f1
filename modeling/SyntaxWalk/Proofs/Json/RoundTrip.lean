import Mathlib
import SyntaxWalk.Json.Printer
import SyntaxWalk.Json.Strict
import SyntaxWalk.Proofs.Registry

/-!
# Reading what was written

The indented text of a value without numbers is read back as the value, if the names of the members of each
object increase strictly and no object begins with the reserved name of embedded documents (`Json.Printable`,
`parse?_indented`).

A text is read in three passes: the lexer turns it into tokens, the embedded documents are replaced, and a
value is assembled. The first two, and the reading of a quoted string within the first, are scans that pass
over their input from front to back and keep what they have put out so far; what such a scan makes of joined
pieces is what it makes of each of them, joined (`Carries`). So each pass is followed along the tokens that
spell a value out (`spelling`), piece by piece. The assembly is followed in the same way: the tokens of a value
put it into the container around it (`Delivers`), and arrays and objects are put together alike (`Container`).
-/

set_option autoImplicit false

namespace SyntaxWalk

/-! ## Scans -/

section Scans

variable {α β γ δ : Type} {scan : List β → List α → γ}

/-- The scan passes over the piece and puts out the given items, whatever comes before and after. What was
put out is kept latest first. -/
def Carries (scan : List β → List α → γ) (piece : List α) (out : List β) : Prop :=
  ∀ done rest, scan done (piece ++ rest) = scan (out.reverse ++ done) rest

namespace Carries

theorem nil : Carries scan [] [] := by
  intro done rest
  rfl

theorem append {first second : List α} {out more : List β} (h : Carries scan first out)
    (h' : Carries scan second more) : Carries scan (first ++ second) (out ++ more) := by
  intro done rest
  rw [List.append_assoc, h, h', List.reverse_append, List.append_assoc]

theorem flatMap {xs : List δ} {piece : δ → List α} {out : δ → List β}
    (h : ∀ x ∈ xs, Carries scan (piece x) (out x)) :
    Carries scan (xs.flatMap piece) (xs.flatMap out) := by
  induction xs with
  | nil => exact nil
  | cons x xs ih =>
    obtain ⟨hx, hxs⟩ := List.forall_mem_cons.1 h
    rw [List.flatMap_cons, List.flatMap_cons]
    exact hx.append (ih hxs)

/-- Many pieces may be joined with separators between them. -/
theorem intercalate {separator : List α} {between : List β} (hsep : Carries scan separator between)
    {xs : List δ} {piece : δ → List α} {out : δ → List β}
    (h : ∀ x ∈ xs, Carries scan (piece x) (out x)) :
    Carries scan (separator.intercalate (xs.map piece)) (between.intercalate (xs.map out)) := by
  induction xs with
  | nil => exact nil
  | cons x xs ih =>
    obtain ⟨hx, hxs⟩ := List.forall_mem_cons.1 h
    cases xs with
    | nil => simpa using hx
    | cons y ys =>
      simp only [List.map_cons, List.intercalate_cons_cons]
      exact (hx.append hsep).append (ih hxs)

end Carries

end Scans

namespace Json

/-! ## Quoted strings -/

section Quoted

variable {mark : Char} {plain : Char → Bool} (read : List Char) {rest : List Char}

theorem takeQuoted?_closing :
    takeQuoted? mark plain read (mark :: rest) = some (String.ofList read.reverse, rest) := by
  rw [takeQuoted?]
  simp

theorem takeQuoted?_plain {c : Char} (hmark : c ≠ mark) (hslash : c ≠ '\\') (hplain : plain c = true) :
    takeQuoted? mark plain read (c :: rest) = takeQuoted? mark plain (c :: read) rest := by
  rw [takeQuoted?]
  simp [hmark, hslash, hplain]

/-- An escape stands for its character. -/
theorem takeQuoted?_escape {c : Char} {after : List Char} (hmark : mark ≠ '\\')
    (h : takeEscape? mark rest = some (c, after)) :
    takeQuoted? mark plain read ('\\' :: rest) = takeQuoted? mark plain (c :: read) after := by
  rw [takeQuoted?]
  simp only [hmark.symm, if_false, if_true]
  split
  · rename_i hnone
    rw [h] at hnone
    cases hnone
  · rename_i hsome
    rw [h] at hsome
    cases hsome
    rfl

theorem hexValue?_hexDigit : ∀ n < 16, hexValue? (hexDigit n) = some n := by
  decide

/-- A control character is read back from its number. -/
theorem takeEscape?_control {c : Char} (h : c.toNat < 0x20) (rest : List Char) :
    takeEscape? '"' ('u' :: '0' :: '0' :: hexDigit (c.toNat / 16) :: hexDigit (c.toNat % 16) :: rest) =
      some (c, rest) := by
  have hzero : hexValue? '0' = some 0 := by decide
  have hhigh := hexValue?_hexDigit (c.toNat / 16) (by omega)
  have hlow := hexValue?_hexDigit (c.toNat % 16) (by omega)
  have hunit : unit? '0' '0' (hexDigit (c.toNat / 16)) (hexDigit (c.toNat % 16)) = some c.toNat := by
    simp only [unit?, hzero, hhigh, hlow, Option.bind_eq_bind, Option.bind_some, Option.pure_def,
      Option.some.injEq]
    omega
  have hrange : ¬(0xD800 ≤ c.toNat ∧ c.toNat < 0xE000) := by omega
  simp [takeEscape?, hunit, hrange]

/-- Each character is read back from the way it is written in a string. -/
theorem carries_escapeChar (c : Char) : Carries (takeQuoted? '"' Strict.isPlain) (escapeChar c) [c] := by
  intro read rest
  have hmark : '"' ≠ '\\' := by decide
  simp only [escapeChar]
  split
  · exact takeQuoted?_escape read hmark rfl
  · exact takeQuoted?_escape read hmark rfl
  · exact takeQuoted?_escape read hmark rfl
  · exact takeQuoted?_escape read hmark rfl
  · exact takeQuoted?_escape read hmark rfl
  · rename_i hquote hslash _ _ _
    -- no letter of its own: two more control characters have one, the others are written as numbers
    split
    · rename_i hcode
      have hc : c = Char.ofNat 0x08 := by rw [← hcode, Char.ofNat_toNat]
      subst hc
      exact takeQuoted?_escape read hmark rfl
    · split
      · rename_i hcode
        have hc : c = Char.ofNat 0x0C := by rw [← hcode, Char.ofNat_toNat]
        subst hc
        exact takeQuoted?_escape read hmark rfl
      · split
        · rename_i hcontrol
          exact takeQuoted?_escape read hmark (takeEscape?_control hcontrol rest)
        · rename_i hlarge
          apply takeQuoted?_plain read hquote hslash
          simpa [Strict.isPlain] using hlarge

/-- A string is read back from its quoted text. -/
theorem takeQuoted?_quote (s : String) (rest : List Char) :
    takeQuoted? '"' Strict.isPlain [] (s.toList.flatMap escapeChar ++ '"' :: rest) = some (s, rest) := by
  have hchars : Carries (takeQuoted? '"' Strict.isPlain) (s.toList.flatMap escapeChar)
      (s.toList.flatMap fun c => [c]) := Carries.flatMap fun c _ => carries_escapeChar c
  rw [hchars, List.flatMap_singleton', takeQuoted?_closing]
  simp

end Quoted

/-! ## Tokens -/

/-- What the rule reads at the front of every text that begins with the piece is carried over. -/
theorem carries_of_next? (token : Option Token) {piece : List Char}
    (h : ∀ rest, Strict.next? (piece ++ rest) = some (token, rest)) :
    Carries Strict.lexer.tokensAfter piece token.toList := by
  intro read rest
  rw [Strict.lexer.tokensAfter_of_next read (h rest)]
  cases token <;> rfl

theorem carries_punctuation {c : Char} {mark : Token} (hspace : Strict.isSpace c = false)
    (h : punctuation? c = some mark) : Carries Strict.lexer.tokensAfter [c] [mark] := by
  apply carries_of_next? (some mark)
  intro rest
  simp [Strict.next?, hspace, h]

/-- Blanks are passed over. -/
theorem carries_blanks {blanks : List Char} (h : ∀ c ∈ blanks, Strict.isSpace c = true) :
    Carries Strict.lexer.tokensAfter blanks [] := by
  induction blanks with
  | nil => exact Carries.nil
  | cons c blanks ih =>
    obtain ⟨hc, hblanks⟩ := List.forall_mem_cons.1 h
    have hfirst : Carries Strict.lexer.tokensAfter [c] [] := by
      apply carries_of_next? none
      intro rest
      simp [Strict.next?, hc]
    exact hfirst.append (ih hblanks)

theorem carries_newline (depth : ℕ) : Carries Strict.lexer.tokensAfter (newline depth).toList [] := by
  apply carries_blanks
  intro c hc
  simp only [newline, String.toList_ofList, List.mem_cons, List.mem_replicate] at hc
  rcases hc with rfl | ⟨-, rfl⟩ <;> rfl

theorem carries_quote (s : String) : Carries Strict.lexer.tokensAfter (quote s).toList [.string s] := by
  apply carries_of_next? (some (.string s))
  intro rest
  have hread := takeQuoted?_quote s rest
  simp [quote, Strict.next?, Strict.isSpace, punctuation?, hread]

/-! ## The tokens of a value -/

mutual

/-- The tokens that spell a value out. -/
def spelling : Json → List Token
  | null => [.constant .null]
  | bool b => [.constant (.bool b)]
  | number n => [.number "" (.number n)]
  | string s => [.string s]
  | array items => .openBracket :: [.comma].intercalate (itemSpellings items) ++ [.closeBracket]
  | object members => .openBrace :: [.comma].intercalate (memberSpellings members) ++ [.closeBrace]

/-- The tokens of each item of an array. -/
def itemSpellings : List Json → List (List Token)
  | [] => []
  | item :: rest => spelling item :: itemSpellings rest

/-- The tokens of each member of an object. -/
def memberSpellings : List (String × Json) → List (List Token)
  | [] => []
  | (name, value) :: rest => (.string name :: .colon :: spelling value) :: memberSpellings rest

end

/-- The tokens of a member. -/
def memberSpelling (entry : String × Json) : List Token :=
  .string entry.1 :: .colon :: spelling entry.2

/-- The indented text of a member. -/
def indentMember (depth : ℕ) (entry : String × Json) : String :=
  quote entry.1 ++ ": " ++ indentAt depth entry.2

theorem itemSpellings_eq (items : List Json) : itemSpellings items = items.map spelling := by
  induction items with
  | nil => simp [itemSpellings]
  | cons item rest ih => simp [itemSpellings, ih]

theorem memberSpellings_eq (members : List (String × Json)) :
    memberSpellings members = members.map memberSpelling := by
  induction members with
  | nil => simp [memberSpellings]
  | cons entry rest ih => simp [memberSpellings, memberSpelling, ih]

theorem indentItems_eq (depth : ℕ) (items : List Json) :
    indentItems depth items = items.map (indentAt depth) := by
  induction items with
  | nil => simp [indentItems]
  | cons item rest ih => simp [indentItems, ih]

theorem indentMembers_eq (depth : ℕ) (members : List (String × Json)) :
    indentMembers depth members = members.map (indentMember depth) := by
  induction members with
  | nil => simp [indentMembers]
  | cons entry rest ih => simp [indentMembers, indentMember, ih]

/-- A value that can be read back: it holds no number, the names in each object increase strictly, and no
object begins with the reserved name of embedded documents. -/
inductive Printable : Json → Prop
  | null : Printable .null
  | bool (b : Bool) : Printable (.bool b)
  | string (s : String) : Printable (.string s)
  | array {items : List Json} (h : ∀ item ∈ items, Printable item) : Printable (.array items)
  | object {members : Bindings Json} (hsorted : members.Sorted)
      (hfirst : ∀ entry ∈ members.head?, entry.1 ≠ Embedded.marker)
      (h : ∀ entry ∈ members, Printable entry.2) : Printable (.object members)

theorem Printable.pair {first second : String} {value other : Json} (hlt : first < second)
    (hname : first ≠ Embedded.marker) (hvalue : value.Printable) (hother : other.Printable) :
    (Json.object [(first, value), (second, other)]).Printable := by
  apply Printable.object
  · simpa [Bindings.Sorted] using hlt
  · simpa using hname
  · simp [hvalue, hother]

/-! ## The lexer reads the tokens -/

/-- The parts of a container are read one after the other, between its brackets. -/
theorem carries_indentParts {δ : Type} (depth : ℕ) {opening closing : String} {first last : Token}
    (hopening : Carries Strict.lexer.tokensAfter opening.toList [first])
    (hclosing : Carries Strict.lexer.tokensAfter closing.toList [last])
    {parts : List δ} {text : δ → String} {tokens : δ → List Token}
    (h : ∀ part ∈ parts, Carries Strict.lexer.tokensAfter (text part).toList (tokens part)) :
    Carries Strict.lexer.tokensAfter
      (indentParts depth opening closing (parts.map text)).toList
      (first :: [Token.comma].intercalate (parts.map tokens) ++ [last]) := by
  have hcomma : Carries Strict.lexer.tokensAfter (',' :: (newline (depth + 1)).toList) [.comma] :=
    (carries_punctuation rfl rfl).append (carries_newline (depth + 1))
  have hinner := hcomma.intercalate h
  cases parts with
  | nil => simpa [indentParts] using hopening.append hclosing
  | cons part rest =>
    have hall := ((hopening.append (carries_newline (depth + 1))).append hinner).append
      ((carries_newline depth).append hclosing)
    simpa [indentParts, String.toList_intercalate, Function.comp_def] using hall

theorem carries_indentMember {depth : ℕ} {entry : String × Json}
    (h : Carries Strict.lexer.tokensAfter (indentAt depth entry.2).toList (spelling entry.2)) :
    Carries Strict.lexer.tokensAfter (indentMember depth entry).toList (memberSpelling entry) := by
  have hcolon : Carries Strict.lexer.tokensAfter [':', ' '] [.colon] :=
    (carries_punctuation rfl rfl).append (carries_blanks (by simp [Strict.isSpace]))
  have hall := ((carries_quote entry.1).append hcolon).append h
  simpa [indentMember, memberSpelling] using hall

/-- The lexer reads the tokens of a value from its indented text. -/
theorem Printable.carries_indentAt {value : Json} (h : value.Printable) (depth : ℕ) :
    Carries Strict.lexer.tokensAfter (indentAt depth value).toList (spelling value) := by
  induction h generalizing depth with
  | null =>
    apply carries_of_next? (some (.constant .null))
    intro rest
    simp [indentAt, Strict.next?, Strict.isSpace, punctuation?, Strict.takeConstant?]
  | bool b =>
    apply carries_of_next? (some (.constant (.bool b)))
    intro rest
    cases b <;> simp [indentAt, Strict.next?, Strict.isSpace, punctuation?, Strict.takeConstant?]
  | string s => exact carries_quote s
  | array hitems ih =>
    have hopening : Carries Strict.lexer.tokensAfter "[".toList [.openBracket] :=
      carries_punctuation rfl rfl
    have hclosing : Carries Strict.lexer.tokensAfter "]".toList [.closeBracket] :=
      carries_punctuation rfl rfl
    simp only [indentAt, spelling, indentItems_eq, itemSpellings_eq]
    apply carries_indentParts depth hopening hclosing
    intro item hitem
    exact ih item hitem (depth + 1)
  | object hsorted hfirst hmembers ih =>
    have hopening : Carries Strict.lexer.tokensAfter "\x7b".toList [.openBrace] :=
      carries_punctuation rfl rfl
    have hclosing : Carries Strict.lexer.tokensAfter "\x7d".toList [.closeBrace] :=
      carries_punctuation rfl rfl
    simp only [indentAt, spelling, indentMembers_eq, memberSpellings_eq]
    apply carries_indentParts depth hopening hclosing
    intro entry hentry
    exact carries_indentMember (ih entry hentry (depth + 1))

/-! ## No document is embedded -/

section Embedded

variable {load : String → Option Json}

/-- A token that opens no object is passed over. -/
theorem carries_token {token : Token} (h : token ≠ .openBrace) :
    Carries (Embedded.expandAfter load) [token] [token] := by
  intro passed rest
  cases token with
  | openBrace => exact absurd rfl h
  | _ => rfl

/-- The brace before a name is passed over, unless the name is the reserved one. -/
theorem carries_openBrace {name : String} {tokens : List Token} (hname : name ≠ Embedded.marker)
    (h : Carries (Embedded.expandAfter load) (.string name :: tokens) (.string name :: tokens)) :
    Carries (Embedded.expandAfter load) (.openBrace :: .string name :: tokens)
      (.openBrace :: .string name :: tokens) := by
  intro passed rest
  -- a name behind the brace is taken together with it, which comes to the same
  have hbrace : Embedded.expandAfter load passed (.openBrace :: .string name :: (tokens ++ rest)) =
      Embedded.expandAfter load (.openBrace :: passed) (.string name :: (tokens ++ rest)) := by
    conv_lhs => unfold Embedded.expandAfter
    simp only [hname, if_false]
    rfl
  have hrest := h (.openBrace :: passed) rest
  simp only [List.cons_append, List.reverse_cons, List.append_assoc, List.nil_append] at hrest ⊢
  rw [hbrace, hrest]

theorem carries_emptyObject :
    Carries (Embedded.expandAfter load) [.openBrace, .closeBrace] [.openBrace, .closeBrace] := by
  intro passed rest
  rfl

/-- The tokens of a value are passed over. -/
theorem Printable.carries_expandAfter {value : Json} (h : value.Printable) :
    Carries (Embedded.expandAfter load) (spelling value) (spelling value) := by
  induction h with
  | null => exact carries_token (by simp)
  | bool b => exact carries_token (by simp)
  | string s => exact carries_token (by simp)
  | array hitems ih =>
    have hcomma : Carries (Embedded.expandAfter load) [.comma] [.comma] := carries_token (by simp)
    have hinner := hcomma.intercalate ih
    simp only [spelling, itemSpellings_eq]
    exact ((carries_token (by simp)).append hinner).append (carries_token (by simp))
  | @object members hsorted hfirst hmembers ih =>
    simp only [spelling, memberSpellings_eq]
    cases members with
    | nil => exact carries_emptyObject
    | cons entry rest =>
      have hcomma : Carries (Embedded.expandAfter load) [.comma] [.comma] := carries_token (by simp)
      have hmember : ∀ entry' ∈ entry :: rest,
          Carries (Embedded.expandAfter load) (memberSpelling entry') (memberSpelling entry') := by
        intro entry' hentry
        exact ((carries_token (by simp)).append (carries_token (by simp))).append (ih entry' hentry)
      have hclosing : Carries (Embedded.expandAfter load) [.closeBrace] [.closeBrace] :=
        carries_token (by simp)
      have hinner := (hcomma.intercalate hmember).append hclosing
      -- the first token behind the brace is the first name
      obtain ⟨tokens, htokens⟩ : ∃ tokens, [Token.comma].intercalate
          ((entry :: rest).map memberSpelling) ++ [.closeBrace] = .string entry.1 :: tokens := by
        cases rest <;> exact ⟨_, rfl⟩
      rw [htokens] at hinner
      rw [List.cons_append, htokens]
      exact carries_openBrace (hfirst entry rfl) hinner

end Embedded

/-! ## The value is put together -/

section Assembly

/-- Where a value may begin, the tokens put the value into the innermost container. -/
def Delivers (tokens : List Token) (value : Json) : Prop :=
  ∀ (frames : List Frame) (expected : Expected) (rest : List Token),
    expected = .value ∨ expected = .item →
      (tokens ++ rest).foldlM (Assembly.step .strict) ⟨frames, expected⟩ =
        (Assembly.place value frames).bind fun s => rest.foldlM (Assembly.step .strict) s

/-- A part of the container may begin. -/
def Begins : Frame → Expected → Prop
  | .array _, .value => True
  | .array _, .item => True
  | .object _, .name => True
  | .object _, .nameOrEnd => True
  | _, _ => False

/-- Where a part of the container may begin, the tokens add to the container. -/
def Adds (tokens : List Token) (before after : Frame) : Prop :=
  ∀ (frames : List Frame) (expected : Expected) (rest : List Token), Begins before expected →
    (tokens ++ rest).foldlM (Assembly.step .strict) ⟨before :: frames, expected⟩ =
      rest.foldlM (Assembly.step .strict) ⟨after :: frames, .separator⟩

/-- The tokens of a value add an item to an array. -/
theorem Delivers.adds_item {tokens : List Token} {value : Json} (h : Delivers tokens value)
    (items : List Json) : Adds tokens (.array items) (.array (value :: items)) := by
  intro frames expected rest hbegins
  have hexpected : expected = .value ∨ expected = .item := by
    cases expected <;> simp [Begins] at hbegins ⊢
  rw [h _ _ _ hexpected]
  rfl

/-- A name and the tokens of a value add a member to an object. -/
theorem Delivers.adds_member {entry : String × Json} (h : Delivers (spelling entry.2) entry.2)
    (members : Bindings Json) :
    Adds (memberSpelling entry) (.object members) (.object (members.set entry.1 entry.2)) := by
  intro frames expected rest hbegins
  have hname : Assembly.step .strict ⟨.object members :: frames, expected⟩ (.string entry.1) =
      some ⟨.object members :: frames, .colon entry.1⟩ := by
    cases expected <;> simp [Begins] at hbegins <;> rfl
  have hcolon : Assembly.step .strict ⟨.object members :: frames, .colon entry.1⟩ .colon =
      some ⟨.member members entry.1 :: frames, .value⟩ := rfl
  simp only [memberSpelling, List.cons_append, List.foldlM_cons, hname, hcolon, Option.bind_eq_bind,
    Option.bind_some]
  rw [h _ _ _ (Or.inl rfl)]
  rfl

/-- How a kind of containers opens, goes on and closes: the frame of what a container holds, what may come
first, and the value in the end. -/
structure Container (γ : Type) where
  opening : Token
  closing : Token
  first : Expected
  empty : γ
  frame : γ → Frame
  value : γ → Json
  begins : ∀ held, Begins (frame held) first
  opens : ∀ frames expected, expected = .value ∨ expected = .item →
    Assembly.step .strict ⟨frames, expected⟩ opening = some ⟨frame empty :: frames, first⟩
  goesOn : ∀ held frames, ∃ expected, Begins (frame held) expected ∧
    Assembly.step .strict ⟨frame held :: frames, .separator⟩ .comma =
      some ⟨frame held :: frames, expected⟩
  closes : ∀ held frames expected, expected = first ∨ expected = .separator →
    Assembly.step .strict ⟨frame held :: frames, expected⟩ closing = Assembly.place (value held) frames

/-- Arrays, which hold their items latest first. -/
def Container.arrays : Container (List Json) where
  opening := .openBracket
  closing := .closeBracket
  first := .item
  empty := []
  frame := .array
  value := fun held => .array held.reverse
  begins := fun _ => trivial
  opens := by rintro frames _ (rfl | rfl) <;> rfl
  goesOn := fun _ _ => ⟨.value, trivial, rfl⟩
  closes := by rintro held frames _ (rfl | rfl) <;> rfl

/-- Objects, which hold their members sorted by name. -/
def Container.objects : Container (Bindings Json) where
  opening := .openBrace
  closing := .closeBrace
  first := .nameOrEnd
  empty := []
  frame := .object
  value := .object
  begins := fun _ => trivial
  opens := by rintro frames _ (rfl | rfl) <;> rfl
  goesOn := fun _ _ => ⟨.name, trivial, rfl⟩
  closes := by rintro held frames _ (rfl | rfl) <;> rfl

namespace Container

variable {γ δ : Type} (container : Container γ) {add : γ → δ → γ} {tokens : δ → List Token}
  {parts : List δ}

/-- Parts with commas between them add to the container one after the other. -/
theorem adds_parts (hne : parts ≠ [])
    (h : ∀ part ∈ parts, ∀ held,
      Adds (tokens part) (container.frame held) (container.frame (add held part))) (held : γ) :
    Adds ([Token.comma].intercalate (parts.map tokens)) (container.frame held)
      (container.frame (parts.foldl add held)) := by
  induction parts generalizing held with
  | nil => exact absurd rfl hne
  | cons part rest ih =>
    obtain ⟨hpart, hrest⟩ := List.forall_mem_cons.1 h
    cases rest with
    | nil => simpa using hpart held
    | cons next rest =>
      -- after the first part a comma is taken, and then the others begin
      intro frames expected more hbegins
      obtain ⟨after, hafter, hstep⟩ := container.goesOn (add held part) frames
      simp only [List.map_cons, List.intercalate_cons_cons, List.append_assoc, List.foldl_cons]
      rw [hpart held frames expected _ hbegins, List.cons_append, List.foldlM_cons, hstep]
      exact ih (List.cons_ne_nil _ _) hrest (add held part) frames after more hafter

/-- The tokens of the parts, between those that open and close a container, deliver its value. -/
theorem delivers (h : ∀ part ∈ parts, ∀ held,
      Adds (tokens part) (container.frame held) (container.frame (add held part))) :
    Delivers (container.opening :: [Token.comma].intercalate (parts.map tokens) ++ [container.closing])
      (container.value (parts.foldl add container.empty)) := by
  intro frames expected rest hexpected
  simp only [List.cons_append, List.append_assoc, List.nil_append, List.foldlM_cons,
    container.opens frames expected hexpected, Option.bind_eq_bind, Option.bind_some]
  cases parts with
  | nil =>
    have hclose := container.closes container.empty frames _ (Or.inl rfl)
    simp [List.foldlM_cons, hclose]
  | cons part others =>
    have hadds := container.adds_parts (List.cons_ne_nil part others) h container.empty
    rw [hadds frames container.first _ (container.begins _), List.foldlM_cons,
      container.closes _ frames .separator (Or.inr rfl)]
    rfl

end Container

theorem delivers_array {items : List Json} (h : ∀ item ∈ items, Delivers (spelling item) item) :
    Delivers (spelling (.array items)) (.array items) := by
  have hall := Container.arrays.delivers fun item hitem held => (h item hitem).adds_item held
  simpa [Container.arrays, spelling, itemSpellings_eq, List.foldl_flip_cons_eq_append] using hall

theorem foldl_set_eq_insertAll (map : NameMap Json) (members : Bindings Json) :
    members.foldl (fun held entry => Bindings.set entry.1 entry.2 held) map.entries =
      (map.insertAll members).entries := by
  induction members generalizing map with
  | nil => rfl
  | cons entry rest ih => exact ih (map.insert entry.1 entry.2)

/-- The tokens of the members, between braces, deliver an object. -/
theorem delivers_object {members : Bindings Json} (hsorted : members.Sorted)
    (h : ∀ entry ∈ members, Delivers (spelling entry.2) entry.2) :
    Delivers (spelling (.object members)) (.object members) := by
  have hall := Container.objects.delivers fun entry hentry held => (h entry hentry).adds_member held
  -- each name is greater than those before it, so the members come to stand as they were written
  have hfold := foldl_set_eq_insertAll .empty members
  rw [← NameMap.ofList, hsorted.entries_ofList] at hfold
  have hvalue : Container.objects.value (members.foldl (fun held entry => held.set entry.1 entry.2)
      Container.objects.empty) = .object members := congrArg Json.object hfold
  rw [hvalue] at hall
  simp only [spelling, memberSpellings_eq]
  exact hall

/-- The tokens of a single value deliver it. -/
theorem delivers_token {token : Token} {value : Json}
    (h : ∀ frames, Assembly.beginValue frames token = Assembly.place value frames)
    (hbracket : token ≠ .closeBracket) : Delivers [token] value := by
  intro frames expected rest hexpected
  have hstep : Assembly.step .strict ⟨frames, expected⟩ token = Assembly.place value frames := by
    rw [← h frames]
    rcases hexpected with rfl | rfl
    · rfl
    · cases token <;> simp_all [Assembly.step]
  simp [List.foldlM_cons, hstep]

/-- The tokens of a value deliver it. -/
theorem Printable.delivers {value : Json} (h : value.Printable) : Delivers (spelling value) value := by
  induction h with
  | null => exact delivers_token (fun _ => rfl) (by simp)
  | bool b => exact delivers_token (fun _ => rfl) (by simp)
  | string s => exact delivers_token (fun _ => rfl) (by simp)
  | array hitems ih => exact delivers_array ih
  | object hsorted hfirst hmembers ih => exact delivers_object hsorted ih

end Assembly

/-- The indented text of a value, with blanks after it, is read back as the value. -/
theorem Printable.parse?_indented {value : Json} (h : value.Printable) {blanks : String}
    (hblanks : ∀ c ∈ blanks.toList, Strict.isSpace c = true) :
    parse? (value.indented ++ blanks) = some value := by
  have htokens : Strict.lexer.tokens (value.indented ++ blanks) = some (spelling value) := by
    have hall := ((h.carries_indentAt 0).append (carries_blanks hblanks)) [] []
    simpa [Lexer.tokens, indented, Lexer.tokensAfter_nil] using hall
  have hexpand : ∀ load, Embedded.expand load (spelling value) = some (spelling value) := by
    intro load
    have hcarries : Carries (Embedded.expandAfter load) (spelling value) (spelling value) :=
      h.carries_expandAfter
    have hall := hcarries [] []
    simpa [Embedded.expand, Embedded.expandAfter] using hall
  have hassemble : assemble .strict (spelling value) = some value := by
    have hall := h.delivers [] .value [] (Or.inl rfl)
    simp only [List.append_nil] at hall
    simp only [assemble, Assembly.start, hall]
    rfl
  rw [parse?, parseIf?]
  simp [htokens, hexpand, hassemble]

end Json

end SyntaxWalk
