import SyntaxWalk.Number.Shortest

/-!
# Number literals

A number is a 64-bit integer, signed or unsigned, or a finite binary64 number, and stays apart from the
other kind: `1` and `1.0` are different numbers. A decimal literal without fraction and exponent is an
integer as long as it fits; every other literal is a binary64 number.

A literal is turned into a binary64 number in two roundings. The leading digits that fit in 64 bits are
read as one natural number, and that number is multiplied or divided by a power of ten in binary64
arithmetic. A literal beyond the largest finite number has no value.
-/

set_option autoImplicit false

namespace SyntaxWalk

/-- A number: an integer or a binary64 number. -/
inductive Number where
  /-- An integer, from `-2 ^ 63` to `2 ^ 64 - 1` when it was read from a text. -/
  | int (n : Int)
  /-- A finite binary64 number. -/
  | float (x : Binary64)
  deriving DecidableEq

namespace Number

/-- The text of a number. -/
def text : Number → String
  | int n => toString n
  | float x => x.text

/-- Is the number a whole number, of either kind? -/
def isWhole : Number → Bool
  | int _ => true
  | float x => x.isWhole

/-- Is the number at least the given natural number? -/
def atLeast (n : Nat) : Number → Bool
  | int i => (n : Int) ≤ i
  | float x => x.atLeast n

/-- The natural number below `2 ^ 64` that an integer stands for; a binary64 number stands for none. -/
def toNat? : Number → Option Nat
  | int i => if 0 ≤ i ∧ i < Nat.pow 2 64 then some i.toNat else none
  | float _ => none

end Number

/-- A decimal literal, taken apart. -/
structure Literal where
  /-- Does a minus sign stand in front? -/
  negative : Bool
  /-- The digits before the point. -/
  whole : List Nat
  /-- The digits after the point, none if there is no point. -/
  fraction : List Nat
  /-- The exponent, if one is written. -/
  exponent : Option Int

namespace Literal

/-- The value of a decimal digit. -/
def digit? (c : Char) : Option Nat :=
  if '0' ≤ c ∧ c ≤ '9' then some (c.toNat - '0'.toNat) else none

/-- Reads the longest run of decimal digits. -/
def takeDigits : List Char → List Nat × List Char
  | [] => ([], [])
  | c :: cs =>
    match digit? c with
    | none => ([], c :: cs)
    | some d => let (ds, rest) := takeDigits cs; (d :: ds, rest)

/-- The number with the given decimal digits. -/
def ofDigits (ds : List Nat) : Nat :=
  ds.foldl (fun n d => 10 * n + d) 0

/-- Reads the digits before the point: a lone zero, or digits of which the first is not zero. -/
def takeWhole? (cs : List Char) : Option (List Nat × List Char) :=
  match cs with
  | '0' :: rest => some ([0], rest)
  | _ => match takeDigits cs with
    | ([], _) => none
    | found => some found

/-- Reads a point and its digits, if a point follows; a point needs at least one digit. -/
def takeFraction? (cs : List Char) : Option (List Nat × List Char) :=
  match cs with
  | '.' :: rest => match takeDigits rest with
    | ([], _) => none
    | found => some found
  | _ => some ([], cs)

/-- Reads an optional sign: is it a minus sign? -/
def takeSign (cs : List Char) : Bool × List Char :=
  match cs with
  | '+' :: rest => (false, rest)
  | '-' :: rest => (true, rest)
  | _ => (false, cs)

/-- Reads the optional sign and the digits of an exponent. -/
def takeExponentDigits? (cs : List Char) : Option (Int × List Char) :=
  match takeDigits (takeSign cs).2 with
  | ([], _) => none
  | (ds, rest) => some (if (takeSign cs).1 then -(ofDigits ds : Int) else ofDigits ds, rest)

/-- Reads an exponent, if a mark of one follows; a mark needs at least one digit. -/
def takeExponent? (cs : List Char) : Option (Option Int × List Char) :=
  match cs with
  | 'e' :: rest | 'E' :: rest => (takeExponentDigits? rest).map fun found => (some found.1, found.2)
  | _ => some (none, cs)

/-- Reads an unsigned decimal literal from the front of a text and gives the rest of the text. -/
def take? (negative : Bool) (cs : List Char) : Option (Literal × List Char) := do
  let (whole, cs) ← takeWhole? cs
  let (fraction, cs) ← takeFraction? cs
  let (exponent, cs) ← takeExponent? cs
  return (⟨negative, whole, fraction, exponent⟩, cs)

/-! ## Reading a literal shortens the text -/

theorem length_takeDigits_le (cs : List Char) : (takeDigits cs).2.length ≤ cs.length := by
  induction cs with
  | nil => exact Nat.le_refl _
  | cons c cs ih =>
    simp only [takeDigits]
    split
    · exact Nat.le_refl _
    · exact Nat.le_succ_of_le ih

theorem length_takeDigits_lt {cs rest : List Char} {d : Nat} {ds : List Nat}
    (h : takeDigits cs = (d :: ds, rest)) : rest.length < cs.length := by
  cases cs with
  | nil => simp [takeDigits] at h
  | cons c cs =>
    simp only [takeDigits] at h
    split at h
    · simp at h
    · have hle := length_takeDigits_le cs
      simp only [Prod.mk.injEq, List.cons.injEq] at h
      rw [h.2] at hle
      exact Nat.lt_succ_of_le hle

theorem length_takeWhole?_lt {cs rest : List Char} {ds : List Nat}
    (h : takeWhole? cs = some (ds, rest)) : rest.length < cs.length := by
  unfold takeWhole? at h
  split at h
  · simp only [Option.some.injEq, Prod.mk.injEq] at h
    rw [← h.2]
    exact Nat.lt_succ_self _
  · split at h
    · simp at h
    · rename_i found hne
      cases ds with
      | nil => exact absurd (Option.some.inj h) (hne rest)
      | cons d ds => exact length_takeDigits_lt (Option.some.inj h)

theorem length_takeFraction?_le {cs rest : List Char} {ds : List Nat}
    (h : takeFraction? cs = some (ds, rest)) : rest.length ≤ cs.length := by
  unfold takeFraction? at h
  split at h
  · rename_i after
    split at h
    · simp at h
    · have hle := length_takeDigits_le after
      rw [Option.some.inj h] at hle
      exact Nat.le_succ_of_le hle
  · simp only [Option.some.injEq, Prod.mk.injEq] at h
    exact Nat.le_of_eq (congrArg List.length h.2.symm)

theorem length_takeSign_le (cs : List Char) : (takeSign cs).2.length ≤ cs.length := by
  unfold takeSign
  split
  · exact Nat.le_succ _
  · exact Nat.le_succ _
  · exact Nat.le_refl _

theorem length_takeExponentDigits?_le {cs rest : List Char} {e : Int}
    (h : takeExponentDigits? cs = some (e, rest)) : rest.length ≤ cs.length := by
  have hsign := length_takeSign_le cs
  have hdigits := length_takeDigits_le (takeSign cs).2
  unfold takeExponentDigits? at h
  split at h
  · simp at h
  · rename_i hread
    simp only [Option.some.injEq, Prod.mk.injEq] at h
    rw [hread, h.2] at hdigits
    exact Nat.le_trans hdigits hsign

theorem length_takeExponent?_le {cs rest : List Char} {e : Option Int}
    (h : takeExponent? cs = some (e, rest)) : rest.length ≤ cs.length := by
  unfold takeExponent? at h
  split at h
  · obtain ⟨found, hfound, hpair⟩ := Option.map_eq_some_iff.1 h
    have hle := length_takeExponentDigits?_le hfound
    simp only [Prod.mk.injEq] at hpair
    rw [hpair.2] at hle
    exact Nat.le_succ_of_le hle
  · obtain ⟨found, hfound, hpair⟩ := Option.map_eq_some_iff.1 h
    have hle := length_takeExponentDigits?_le hfound
    simp only [Prod.mk.injEq] at hpair
    rw [hpair.2] at hle
    exact Nat.le_succ_of_le hle
  · simp only [Option.some.injEq, Prod.mk.injEq] at h
    exact Nat.le_of_eq (congrArg List.length h.2.symm)

/-- A literal takes at least one character. -/
theorem length_take?_lt {negative : Bool} {cs rest : List Char} {l : Literal}
    (h : take? negative cs = some (l, rest)) : rest.length < cs.length := by
  simp only [take?, Option.bind_eq_bind, Option.bind_eq_some_iff, Option.pure_def,
    Option.some.injEq, Prod.mk.injEq] at h
  obtain ⟨⟨whole, cs₁⟩, hwhole, ⟨fraction, cs₂⟩, hfraction, ⟨exponent, cs₃⟩, hexponent, -, rfl⟩ := h
  have h₁ := length_takeWhole?_lt hwhole
  have h₂ := length_takeFraction?_le hfraction
  have h₃ := length_takeExponent?_le hexponent
  exact Nat.lt_of_le_of_lt (Nat.le_trans h₃ h₂) h₁

/-! ## The value of a literal -/

/-- Appends digits to a natural number as long as it stays below `2 ^ 64`, and gives the digits that no
longer fit. -/
def absorb (n : Nat) : List Nat → Nat × List Nat
  | [] => (n, [])
  | d :: ds => if 10 * n + d < Nat.pow 2 64 then absorb (10 * n + d) ds else (n, d :: ds)

/-- The power of ten nearest to `10 ^ k`, for `k` at most `308`. -/
def powerOfTen? (k : Nat) : Option Binary64 :=
  Binary64.ofNat (Nat.pow 10 k)

/-- Multiplies by `10 ^ e`, in steps of at most `10 ^ 308`; `none` beyond the largest finite number. -/
def scale (x : Binary64) (e : Int) : Option Binary64 :=
  if e.natAbs ≤ 308 then do
    let power ← powerOfTen? e.natAbs
    if 0 ≤ e then x.mul power else x.div power
  else if x.isZero then some x
  else if 0 ≤ e then none
  else do
    let power ← powerOfTen? 308
    scale (← x.div power) (e + 308)
termination_by e.natAbs
decreasing_by omega

/-- The binary64 number of a literal, or `none` beyond the largest finite number. -/
def toBinary64? (l : Literal) : Option Binary64 := do
  let (head, beyond) := absorb 0 l.whole
  let (n, unread) := absorb head l.fraction
  let shift : Int := beyond.length - (l.fraction.length - unread.length : Nat)
  let x ← scale (← Binary64.ofNat n) (shift + l.exponent.getD 0)
  return if l.negative then x.negate else x

/-- The integer of a literal: it has neither fraction nor exponent, it fits in 64 bits, and it is not
the negative zero. -/
def toInt? (l : Literal) : Option Int :=
  let n := ofDigits l.whole
  if !l.fraction.isEmpty || l.exponent.isSome then none
  else if l.negative then if 0 < n ∧ n ≤ Nat.pow 2 63 then some (-(n : Int)) else none
  else if n < Nat.pow 2 64 then some n else none

/-- The number that a literal stands for, or `none` beyond the largest finite number. -/
def toNumber? (l : Literal) : Option Number :=
  match l.toInt? with
  | some n => some (.int n)
  | none => l.toBinary64?.map .float

end Literal

end SyntaxWalk
