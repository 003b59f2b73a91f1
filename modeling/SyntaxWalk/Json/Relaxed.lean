import SyntaxWalk.Json.Lexer
import SyntaxWalk.Json.Quoted
import SyntaxWalk.Text.Alphanumeric
import SyntaxWalk.Text.Blank
import SyntaxWalk.Text.Lines

/-!
# Reading relaxed JSON

The notation of settings files: JSON with comments, single or double quotes, words as names, optional
commas, a plus sign in front of numbers, and hexadecimal integers. Blanks are the characters of the
Unicode property `White_Space`, and every character may stand unescaped in a string.

A number that has no value (a hexadecimal integer above `2 ^ 63 - 1`, or a literal beyond the largest
finite binary64 number) stands for the string of its own text. A text without any token stands for no
value at all, which is not an error.
-/

set_option autoImplicit false

namespace SyntaxWalk.Json

namespace Relaxed

/-- The text after the end of a comment that is closed by `*/`. -/
def afterBlockComment? : List Char → Option (List Char)
  | '*' :: '/' :: rest => some rest
  | _ :: rest => afterBlockComment? rest
  | [] => none

/-- The text after the end of the line. -/
def afterLine (cs : List Char) : List Char :=
  cs.dropWhile (· != '\n')

/-- Passes over a comment. -/
def takeComment? (cs : List Char) : Option (Option Token × List Char) :=
  match cs with
  | '/' :: '/' :: rest => some (none, afterLine rest)
  | '/' :: '*' :: rest => (afterBlockComment? rest).map fun after => (none, after)
  | _ => none

/-- Reads the longest run of hexadecimal digits. -/
def takeHexDigits : List Char → List Nat × List Char
  | [] => ([], [])
  | c :: cs =>
    match hexValue? c with
    | none => ([], c :: cs)
    | some d => (d :: (takeHexDigits cs).1, (takeHexDigits cs).2)

/-- The number with the given hexadecimal digits. -/
def ofHexDigits (ds : List Nat) : Nat :=
  ds.foldl (fun n d => 16 * n + d) 0

/-- The integer of a sign and hexadecimal digits, if they stay below `2 ^ 63`. -/
def hexNumber? (negative : Bool) (n : Nat) : Option Number :=
  if n < Nat.pow 2 63 then some (.int (if negative then -(n : Int) else n)) else none

/-- Reads the digits of a hexadecimal integer. -/
def takeHex? (negative : Bool) (cs : List Char) : Option (Option Number × List Char) :=
  match takeHexDigits cs with
  | ([], _) => none
  | (ds, rest) => some (hexNumber? negative (ofHexDigits ds), rest)

/-- Reads a number after its sign: its value, if it has one, and the rest of the text. -/
def takeUnsigned? (negative : Bool) (cs : List Char) : Option (Option Number × List Char) :=
  match cs with
  | '0' :: 'x' :: rest | '0' :: 'X' :: rest => takeHex? negative rest
  | _ => (Literal.take? negative cs).map fun found => (found.1.toNumber?, found.2)

/-- Reads a number with its sign. -/
def takeNumber? (cs : List Char) : Option (Option Token × List Char) :=
  (takeUnsigned? (Literal.takeSign cs).1 (Literal.takeSign cs).2).map fun found =>
    let written := String.ofList (cs.take (cs.length - found.2.length))
    let value := match found.1 with
      | some n => Json.number n
      | none => Json.string written
    (some (.number written value), found.2)

/-- The text after a constant, if it begins with the constant and goes on with no further letter or
digit. -/
def afterConstant? (constant : List Char) (cs : List Char) : Option (List Char) :=
  match Text.afterStart? constant cs with
  | some (c :: rest) => if Text.isAlphanumeric c then none else some (c :: rest)
  | other => other

/-- Does a word end before this character? -/
def endsWord (c : Char) : Bool :=
  Text.isBlank c || c == ':'

/-- May the character stand in a word? -/
def isWordChar (c : Char) : Bool :=
  Text.isAlphanumeric c || c == '-' || c == '_'

/-- Reads a word, up to a blank, a colon or the end of the text. -/
def takeWord? (cs : List Char) : Option (Option Token × List Char) :=
  let word := cs.takeWhile (!endsWord ·)
  if !word.isEmpty && word.all isWordChar then
    some (some (.word (String.ofList word)), cs.drop word.length)
  else none

/-- Reads a constant or a word. -/
def takeConstantOrWord? (cs : List Char) : Option (Option Token × List Char) :=
  match afterConstant? ['t', 'r', 'u', 'e'] cs with
  | some rest => some (some (.constant (.bool true)), rest)
  | none =>
    match afterConstant? ['f', 'a', 'l', 's', 'e'] cs with
    | some rest => some (some (.constant (.bool false)), rest)
    | none =>
      match afterConstant? ['n', 'u', 'l', 'l'] cs with
      | some rest => some (some (.constant .null), rest)
      | none => takeWord? cs

/-- Reads a quoted string. -/
def takeString? (quote : Char) (cs : List Char) : Option (Option Token × List Char) :=
  (takeQuoted? quote (fun _ => true) [] cs).map fun found => (some (.string found.1), found.2)

/-- Does a number begin with this character? -/
def beginsNumber (c : Char) : Bool :=
  c == '-' || c == '+' || (Literal.digit? c).isSome

/-- Reads a blank, a comment, a punctuation mark, a string, a number, a constant or a word. -/
def next? (cs : List Char) : Option (Option Token × List Char) :=
  match cs with
  | [] => none
  | c :: rest =>
    if Text.isBlank c then some (none, rest)
    else match punctuation? c with
    | some mark => some (some mark, rest)
    | none =>
      if c = '"' ∨ c = '\'' then takeString? c rest
      else if c = '/' then takeComment? cs
      else if beginsNumber c then takeNumber? cs
      else takeConstantOrWord? cs

/-! ## Each reading shortens the text -/

theorem length_afterBlockComment?_le {cs rest : List Char} (h : afterBlockComment? cs = some rest) :
    rest.length ≤ cs.length := by
  fun_induction afterBlockComment? cs with
  | case1 after =>
    rw [Option.some.inj h]
    simp only [List.length_cons]
    omega
  | case2 c after _ ih => exact Nat.le_succ_of_le (ih h)
  | case3 => simp at h

theorem length_takeComment?_lt {cs rest : List Char} {token : Option Token}
    (h : takeComment? cs = some (token, rest)) : rest.length < cs.length := by
  unfold takeComment? at h
  split at h
  · rename_i after
    have hle : (afterLine after).length ≤ after.length := (List.dropWhile_sublist _).length_le
    simp only [Option.some.injEq, Prod.mk.injEq] at h
    rw [h.2] at hle
    simp only [List.length_cons]
    omega
  · obtain ⟨after, hafter, hpair⟩ := Option.map_eq_some_iff.1 h
    have hle := length_afterBlockComment?_le hafter
    simp only [Prod.mk.injEq] at hpair
    rw [hpair.2] at hle
    simp only [List.length_cons]
    omega
  · simp at h

theorem length_takeHexDigits_le (cs : List Char) : (takeHexDigits cs).2.length ≤ cs.length := by
  induction cs with
  | nil => exact Nat.le_refl _
  | cons c cs ih =>
    simp only [takeHexDigits]
    split
    · exact Nat.le_refl _
    · exact Nat.le_succ_of_le ih

theorem length_takeHex?_le {negative : Bool} {cs rest : List Char} {n : Option Number}
    (h : takeHex? negative cs = some (n, rest)) : rest.length ≤ cs.length := by
  have hle := length_takeHexDigits_le cs
  unfold takeHex? at h
  split at h
  · simp at h
  · rename_i hread
    simp only [Option.some.injEq, Prod.mk.injEq] at h
    rw [hread, h.2] at hle
    exact hle

theorem length_takeUnsigned?_lt {negative : Bool} {cs rest : List Char} {n : Option Number}
    (h : takeUnsigned? negative cs = some (n, rest)) : rest.length < cs.length := by
  unfold takeUnsigned? at h
  split at h
  · exact Nat.lt_succ_of_lt (Nat.lt_succ_of_le (length_takeHex?_le h))
  · exact Nat.lt_succ_of_lt (Nat.lt_succ_of_le (length_takeHex?_le h))
  · obtain ⟨found, hfound, hpair⟩ := Option.map_eq_some_iff.1 h
    have hlt := Literal.length_take?_lt hfound
    simp only [Prod.mk.injEq] at hpair
    rw [hpair.2] at hlt
    exact hlt

theorem length_takeNumber?_lt {cs rest : List Char} {token : Option Token}
    (h : takeNumber? cs = some (token, rest)) : rest.length < cs.length := by
  obtain ⟨found, hfound, hpair⟩ := Option.map_eq_some_iff.1 h
  have hlt := length_takeUnsigned?_lt hfound
  simp only [Prod.mk.injEq] at hpair
  rw [hpair.2] at hlt
  exact Nat.lt_of_lt_of_le hlt (Literal.length_takeSign_le cs)

/-- Taking a beginning away takes as many characters as it has. -/
theorem length_afterStart? {start cs rest : List Char}
    (h : Text.afterStart? start cs = some rest) : rest.length + start.length = cs.length := by
  induction start generalizing cs with
  | nil =>
    rw [Option.some.inj h]
    rfl
  | cons p ps ih =>
    cases cs with
    | nil => simp [Text.afterStart?] at h
    | cons c cs =>
      simp only [Text.afterStart?] at h
      split at h
      · simp only [List.length_cons, ← ih h]
        omega
      · simp at h

theorem length_afterConstant? {constant cs rest : List Char}
    (h : afterConstant? constant cs = some rest) : rest.length + constant.length = cs.length := by
  unfold afterConstant? at h
  split at h
  · rename_i hstart
    split at h
    · simp at h
    · rw [← Option.some.inj h]
      exact length_afterStart? hstart
  · exact length_afterStart? h

theorem length_takeWord?_lt {cs rest : List Char} {token : Option Token}
    (h : takeWord? cs = some (token, rest)) : rest.length < cs.length := by
  simp only [takeWord?] at h
  split at h
  · rename_i hword
    simp only [Option.some.injEq, Prod.mk.injEq] at h
    rw [← h.2, List.length_drop]
    have hpos : 0 < (cs.takeWhile (!endsWord ·)).length := by
      cases hw : cs.takeWhile (!endsWord ·) with
      | nil => simp [hw] at hword
      | cons _ _ => simp
    have hle : (cs.takeWhile (!endsWord ·)).length ≤ cs.length :=
      (List.takeWhile_sublist _).length_le
    omega
  · simp at h

theorem length_takeConstantOrWord?_lt {cs rest : List Char} {token : Option Token}
    (h : takeConstantOrWord? cs = some (token, rest)) : rest.length < cs.length := by
  unfold takeConstantOrWord? at h
  split at h
  · rename_i hconstant
    have := length_afterConstant? hconstant
    simp only [Option.some.injEq, Prod.mk.injEq, List.length_cons] at h this
    rw [← h.2]
    omega
  · split at h
    · rename_i hconstant
      have := length_afterConstant? hconstant
      simp only [Option.some.injEq, Prod.mk.injEq, List.length_cons] at h this
      rw [← h.2]
      omega
    · split at h
      · rename_i hconstant
        have := length_afterConstant? hconstant
        simp only [Option.some.injEq, Prod.mk.injEq, List.length_cons] at h this
        rw [← h.2]
        omega
      · exact length_takeWord?_lt h

theorem length_takeString?_lt {quote : Char} {cs rest : List Char} {token : Option Token}
    (h : takeString? quote cs = some (token, rest)) : rest.length < cs.length := by
  obtain ⟨found, hfound, hpair⟩ := Option.map_eq_some_iff.1 h
  have hlt := length_takeQuoted?_lt hfound
  simp only [Prod.mk.injEq] at hpair
  rw [hpair.2] at hlt
  exact hlt

/-- Each reading shortens the text. -/
theorem length_next?_lt {cs rest : List Char} {token : Option Token}
    (h : next? cs = some (token, rest)) : rest.length < cs.length := by
  unfold next? at h
  split at h
  · simp at h
  · split at h
    · simp only [Option.some.injEq, Prod.mk.injEq] at h
      rw [← h.2]
      exact Nat.lt_succ_self _
    · split at h
      · simp only [Option.some.injEq, Prod.mk.injEq] at h
        rw [← h.2]
        exact Nat.lt_succ_self _
      · split at h
        · exact Nat.lt_succ_of_lt (length_takeString?_lt h)
        · split at h
          · exact length_takeComment?_lt h
          · split at h
            · exact length_takeNumber?_lt h
            · exact length_takeConstantOrWord?_lt h

/-- The lexer of the relaxed notation. -/
def lexer : Lexer :=
  ⟨next?, length_next?_lt⟩

end Relaxed

/-- The value that a relaxed JSON text spells out: `none` if it is not such a text, and `some none` if
it holds no token. -/
def parseRelaxed? (text : String) : Option (Option Json) := do
  let tokens ← Relaxed.lexer.tokens text
  if tokens.isEmpty then return none
  else return some (← assemble .relaxed tokens)

end SyntaxWalk.Json
