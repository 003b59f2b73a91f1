/-!
# Quoted strings

The part of a text between an opening quote and its closing quote. A backslash begins an escape: one of
the letters `b f n r t`, a slash, a backslash, the enclosing quote itself, or `u` with four hexadecimal
digits. Two such escapes may form a surrogate pair; half a pair is an error. Which characters may stand
unescaped is up to the notation that uses the string.
-/

set_option autoImplicit false

namespace SyntaxWalk.Json

/-- The value of a hexadecimal digit. -/
def hexValue? (c : Char) : Option Nat :=
  if '0' ≤ c ∧ c ≤ '9' then some (c.toNat - '0'.toNat)
  else if 'a' ≤ c ∧ c ≤ 'f' then some (c.toNat - 'a'.toNat + 10)
  else if 'A' ≤ c ∧ c ≤ 'F' then some (c.toNat - 'A'.toNat + 10)
  else none

/-- The number written as four hexadecimal digits. -/
def unit? (a b c d : Char) : Option Nat := do
  let a ← hexValue? a
  let b ← hexValue? b
  let c ← hexValue? c
  let d ← hexValue? d
  return ((a * 16 + b) * 16 + c) * 16 + d

/-- The character of a high and a low surrogate, or `none` if they are not such a pair. -/
def joinSurrogates? (high low : Nat) : Option Char :=
  if 0xD800 ≤ high ∧ high < 0xDC00 ∧ 0xDC00 ≤ low ∧ low < 0xE000 then
    some (Char.ofNat (0x10000 + (high - 0xD800) * 0x400 + (low - 0xDC00)))
  else none

/-- The character that the letter after a backslash stands for. -/
def simpleEscape? (quote c : Char) : Option Char :=
  if c = quote then some c
  else match c with
    | '\\' => some '\\'
    | '/' => some '/'
    | 'b' => some (Char.ofNat 0x08)
    | 'f' => some (Char.ofNat 0x0C)
    | 'n' => some '\n'
    | 'r' => some '\r'
    | 't' => some '\t'
    | _ => none

/-- Reads what follows a backslash: the escaped character and the rest of the text. -/
def takeEscape? (quote : Char) (cs : List Char) : Option (Char × List Char) :=
  match cs with
  | [] => none
  | 'u' :: a :: b :: c :: d :: rest => do
    let high ← unit? a b c d
    if 0xD800 ≤ high ∧ high < 0xE000 then
      match rest with
      | '\\' :: 'u' :: a :: b :: c :: d :: rest =>
        return (← joinSurrogates? high (← unit? a b c d), rest)
      | _ => none
    else return (Char.ofNat high, rest)
  | c :: rest => (simpleEscape? quote c).map fun e => (e, rest)

theorem length_takeEscape?_lt {quote : Char} {cs rest : List Char} {c : Char}
    (h : takeEscape? quote cs = some (c, rest)) : rest.length < cs.length := by
  unfold takeEscape? at h
  split at h
  · simp at h
  · simp only [Option.bind_eq_bind, Option.bind_eq_some_iff] at h
    obtain ⟨high, -, h⟩ := h
    split at h
    · split at h
      · simp only [Option.bind_eq_some_iff, Option.pure_def, Option.some.injEq,
          Prod.mk.injEq] at h
        obtain ⟨low, -, e, -, -, rfl⟩ := h
        simp only [List.length_cons]
        omega
      · simp at h
    · simp only [Option.pure_def, Option.some.injEq, Prod.mk.injEq] at h
      obtain ⟨-, rfl⟩ := h
      simp only [List.length_cons]
      omega
  · simp only [Option.map_eq_some_iff, Prod.mk.injEq] at h
    obtain ⟨e, -, -, rfl⟩ := h
    simp

/-- Reads up to the closing quote. The characters read so far are given latest first, and `plain` tells
which characters may stand unescaped. -/
def takeQuoted? (quote : Char) (plain : Char → Bool) (read : List Char) (cs : List Char) :
    Option (String × List Char) :=
  match cs with
  | [] => none
  | c :: rest =>
    if c = quote then some (String.ofList read.reverse, rest)
    else if c = '\\' then
      match _h : takeEscape? quote rest with
      | none => none
      | some (e, after) => takeQuoted? quote plain (e :: read) after
    else if plain c then takeQuoted? quote plain (c :: read) rest
    else none
termination_by cs.length
decreasing_by
  · have := length_takeEscape?_lt _h
    simp only [List.length_cons]
    omega
  · simp

theorem length_takeQuoted?_lt {quote : Char} {plain : Char → Bool} {read cs rest : List Char}
    {s : String} (h : takeQuoted? quote plain read cs = some (s, rest)) :
    rest.length < cs.length := by
  fun_induction takeQuoted? quote plain read cs with
  | case1 => simp at h
  | case2 read rest' =>
    simp only [Option.some.injEq, Prod.mk.injEq] at h
    simp [h.2]
  | case3 => simp at h
  | case4 read rest' e after hescape _ ih =>
    have := ih h
    have := length_takeEscape?_lt hescape
    simp only [List.length_cons]
    omega
  | case5 read c rest' _ _ _ ih =>
    have := ih h
    simp only [List.length_cons]
    omega
  | case6 => simp at h

end SyntaxWalk.Json
