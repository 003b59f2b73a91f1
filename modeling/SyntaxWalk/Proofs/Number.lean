import Mathlib
import SyntaxWalk.Number.Literal

/-!
# The values of numbers

A number stands for a rational number: an integer for itself, and a binary64 number for
`± significand · 2 ^ exponent`. The tests on numbers are tests of that value: for being whole
(`Number.isWhole_iff`) and for being at least a natural number (`Number.atLeast_iff`).

Every rounding keeps the sign, so a literal with a minus sign never stands for a positive number. A literal
whose number is at least one is therefore held as a natural number below `2 ^ 64` exactly when it is written
without point and exponent and is below `2 ^ 64` (`Literal.isHeld_iff`).
-/

set_option autoImplicit false

namespace SyntaxWalk

namespace Binary64

/-! ## The value of a binary64 number -/

/-- The rational number that a binary64 number stands for. -/
def toRat (x : Binary64) : ℚ :=
  (if x.negative then -1 else 1) * (x.significand * 2 ^ x.exponent)

theorem den_pos (x : Binary64) : 0 < x.den :=
  Nat.pow_pos Nat.zero_lt_two

theorem num_div_den (x : Binary64) : (x.num : ℚ) / x.den = x.significand * 2 ^ x.exponent := by
  unfold num den
  rcases Int.le_total 0 x.exponent with h | h
  · obtain ⟨k, hk⟩ := Int.eq_ofNat_of_zero_le h
    simp [hk]
  · obtain ⟨k, hk⟩ := Int.eq_ofNat_of_zero_le (Int.neg_nonneg_of_nonpos h)
    have hexponent : x.exponent = -(k : ℤ) := by omega
    simp [hexponent, div_eq_mul_inv]

theorem toRat_of_not_negative {x : Binary64} (h : x.negative = false) :
    x.toRat = (x.num : ℚ) / x.den := by
  simp [toRat, h, num_div_den]

theorem toRat_of_negative {x : Binary64} (h : x.negative = true) :
    x.toRat = -((x.num : ℚ) / x.den) := by
  simp [toRat, h, num_div_den]

/-- A number is whole exactly when its value has the denominator one. -/
theorem isWhole_iff_den (x : Binary64) : x.isWhole = true ↔ x.toRat.den = 1 := by
  have hdvd : x.isWhole = true ↔ ((x.num : ℚ) / x.den).den = 1 := by
    rw [Rat.den_div_natCast_eq_one_iff _ _ x.den_pos.ne']
    simp [isWhole, Nat.dvd_iff_mod_eq_zero]
  cases hsign : x.negative with
  | false => rw [hdvd, toRat_of_not_negative hsign]
  | true => rw [hdvd, toRat_of_negative hsign, Rat.neg_den]

theorem isWhole_iff (x : Binary64) : x.isWhole = true ↔ ∃ k : ℤ, x.toRat = k := by
  rw [isWhole_iff_den]
  constructor
  · intro hden
    exact ⟨x.toRat.num, ((Rat.den_eq_one_iff _).1 hden).symm⟩
  · rintro ⟨k, hk⟩
    rw [hk, Rat.den_intCast]

theorem magnitude_nonneg (x : Binary64) : 0 ≤ (x.num : ℚ) / x.den := by
  positivity

theorem toRat_nonpos {x : Binary64} (h : x.negative = true) : x.toRat ≤ 0 := by
  rw [toRat_of_negative h]
  exact neg_nonpos.2 x.magnitude_nonneg

theorem isZero_iff (x : Binary64) : x.isZero = true ↔ x.toRat = 0 := by
  have hpower : (2 : ℚ) ^ x.exponent ≠ 0 := by positivity
  cases hsign : x.negative <;> simp [isZero, toRat, hsign, hpower]

/-- The comparison with a natural number is one of the values. -/
theorem atLeast_iff (x : Binary64) (n : ℕ) : x.atLeast n = true ↔ (n : ℚ) ≤ x.toRat := by
  cases hsign : x.negative with
  | false =>
    have hden : (0 : ℚ) < x.den := by exact_mod_cast x.den_pos
    rw [toRat_of_not_negative hsign, le_div_iff₀ hden]
    simp only [atLeast, hsign, Bool.false_eq_true, if_false, decide_eq_true_eq]
    exact_mod_cast Iff.rfl
  | true =>
    -- below a minus sign the number can only be compared with zero, and has to be zero itself
    have hnonpos := toRat_nonpos hsign
    have hnonneg : (0 : ℚ) ≤ n := Nat.cast_nonneg n
    simp only [atLeast, hsign, if_true, Bool.and_eq_true, isZero_iff, decide_eq_true_eq]
    constructor
    · rintro ⟨hzero, rfl⟩
      simp [hzero]
    · intro hle
      have hzero : x.toRat = 0 := le_antisymm hnonpos (hnonneg.trans hle)
      have hn : (n : ℚ) = 0 := le_antisymm (hle.trans hnonpos) hnonneg
      exact ⟨hzero, by exact_mod_cast hn⟩

/-! ## Rounding keeps the sign -/

theorem negative_of_ofRatio {negative : Bool} {num den : ℕ} {x : Binary64}
    (h : ofRatio negative num den = some x) : x.negative = negative := by
  simp only [ofRatio] at h
  split at h
  · rw [← Option.some.inj h]
  · simp only [Option.ite_none_right_eq_some, Option.some.injEq] at h
    rw [← h.2]

/-- A rounded product with a number without a minus sign has the sign of the other factor. -/
theorem negative_of_mul {x y z : Binary64} (hy : y.negative = false) (h : x.mul y = some z) :
    z.negative = x.negative := by
  have hsign := negative_of_ofRatio h
  simpa [hy] using hsign

/-- A rounded quotient by a number without a minus sign has the sign of the dividend. -/
theorem negative_of_div {x y z : Binary64} (hy : y.negative = false) (h : x.div y = some z) :
    z.negative = x.negative := by
  have hsign := negative_of_ofRatio h
  simpa [hy] using hsign

end Binary64

namespace Number

/-! ## The value of a number -/

/-- The rational number that a number stands for. -/
def toRat : Number → ℚ
  | int n => n
  | float x => x.toRat

theorem isWhole_iff (n : Number) : n.isWhole = true ↔ ∃ k : ℤ, n.toRat = k := by
  cases n with
  | int i => simp [isWhole, toRat]
  | float x => exact x.isWhole_iff

theorem atLeast_iff (n : Number) (least : ℕ) : n.atLeast least = true ↔ (least : ℚ) ≤ n.toRat := by
  cases n with
  | int i =>
    simp only [atLeast, toRat, decide_eq_true_eq]
    exact_mod_cast Iff.rfl
  | float x => exact x.atLeast_iff least

/-- The number is held as an unsigned integer of 64 bits. -/
def IsHeld (n : Number) : Prop :=
  ∃ k : ℕ, k < 2 ^ 64 ∧ n = .int k

/-- A number has a natural number exactly when it is held as that number. -/
theorem toNat?_eq_some_iff (n : Number) (k : ℕ) :
    n.toNat? = some k ↔ k < 2 ^ 64 ∧ n = .int k := by
  cases n with
  | float x => simp [toNat?]
  | int i =>
    simp only [toNat?, Nat.pow_eq, Option.ite_none_right_eq_some, Option.some.injEq, int.injEq]
    omega

theorem toNat?_eq_none_iff (n : Number) : n.toNat? = none ↔ ¬n.IsHeld := by
  simp only [IsHeld, ← toNat?_eq_some_iff, Option.eq_none_iff_forall_ne_some, not_exists, ne_eq]

end Number

namespace Literal

/-! ## The number of a literal -/

theorem negative_of_powerOfTen? {k : ℕ} {x : Binary64} (h : powerOfTen? k = some x) :
    x.negative = false :=
  Binary64.negative_of_ofRatio h

/-- Multiplying by a power of ten keeps the sign. -/
theorem negative_of_scale {x y : Binary64} {e : ℤ} (h : scale x e = some y) :
    y.negative = x.negative := by
  fun_induction scale x e with
  | case1 x e hsmall =>
    obtain ⟨power, hpower, hscaled⟩ := Option.bind_eq_some_iff.1 h
    have hsign := negative_of_powerOfTen? hpower
    split at hscaled
    · exact Binary64.negative_of_mul hsign hscaled
    · exact Binary64.negative_of_div hsign hscaled
  | case2 x e hlarge hzero => rw [Option.some.inj h]
  | case3 => simp at h
  | case4 x e hlarge hzero hneg ih =>
    obtain ⟨power, hpower, hrest⟩ := Option.bind_eq_some_iff.1 h
    obtain ⟨quotient, hquotient, hscaled⟩ := Option.bind_eq_some_iff.1 hrest
    rw [ih quotient hscaled, Binary64.negative_of_div (negative_of_powerOfTen? hpower) hquotient]

/-- The binary64 number of a literal has the sign of the literal. -/
theorem negative_of_toBinary64? {l : Literal} {x : Binary64} (h : l.toBinary64? = some x) :
    x.negative = l.negative := by
  obtain ⟨digits, hdigits, hrest⟩ := Option.bind_eq_some_iff.1 h
  obtain ⟨scaled, hscaled, hsigned⟩ := Option.bind_eq_some_iff.1 hrest
  have hplain : scaled.negative = false :=
    (negative_of_scale hscaled).trans (Binary64.negative_of_ofRatio hdigits)
  rw [← Option.some.inj hsigned]
  cases hsign : l.negative <;> simp [Binary64.negate, hplain]

/-- A literal that stands for a positive number has no minus sign. -/
theorem not_negative_of_toNumber? {l : Literal} {n : Number} (h : l.toNumber? = some n)
    (hpos : 0 < n.toRat) : l.negative = false := by
  by_contra hsign
  rw [Bool.not_eq_false] at hsign
  simp only [toNumber?] at h
  split at h
  · -- an integer with a minus sign is negative, since the negative zero is none
    rename_i i hint
    cases h
    simp only [toInt?, hsign, if_true] at hint
    split at hint
    · simp at hint
    · simp only [Option.ite_none_right_eq_some, Option.some.injEq] at hint
      have hneg : (i : ℚ) < 0 := by exact_mod_cast (by omega : i < 0)
      exact absurd hpos (not_lt_of_gt hneg)
  · obtain ⟨x, hx, rfl⟩ := Option.map_eq_some_iff.1 h
    have hnonpos := Binary64.toRat_nonpos ((negative_of_toBinary64? hx).trans hsign)
    exact absurd hpos (not_lt_of_ge hnonpos)

/-- Without a minus sign, a literal is an integer exactly when it has neither fraction nor exponent and is
below `2 ^ 64`. -/
theorem toInt?_eq_some_iff {l : Literal} (hsign : l.negative = false) (i : ℤ) :
    l.toInt? = some i ↔
      l.fraction = [] ∧ l.exponent = none ∧ ofDigits l.whole < 2 ^ 64 ∧ (ofDigits l.whole : ℤ) = i := by
  simp only [toInt?, hsign]
  cases l.fraction <;> cases l.exponent <;> simp

/-- A literal that stands for a positive number is held as an unsigned integer of 64 bits exactly when it is
written without fraction and exponent and is below `2 ^ 64`. -/
theorem isHeld_iff {l : Literal} {n : Number} (h : l.toNumber? = some n) (hpos : 0 < n.toRat) :
    n.IsHeld ↔ l.fraction = [] ∧ l.exponent = none ∧ ofDigits l.whole < 2 ^ 64 := by
  have hsign := not_negative_of_toNumber? h hpos
  constructor
  · rintro ⟨k, -, rfl⟩
    have hint : l.toInt? = some (k : ℤ) := by
      simp only [toNumber?] at h
      split at h
      · rename_i i hi
        cases h
        exact hi
      · simp at h
    obtain ⟨hfraction, hexponent, hlt, -⟩ := (toInt?_eq_some_iff hsign _).1 hint
    exact ⟨hfraction, hexponent, hlt⟩
  · rintro ⟨hfraction, hexponent, hlt⟩
    have hint : l.toInt? = some (ofDigits l.whole : ℤ) :=
      (toInt?_eq_some_iff hsign _).2 ⟨hfraction, hexponent, hlt, rfl⟩
    simp only [toNumber?, hint, Option.some.injEq] at h
    exact ⟨ofDigits l.whole, hlt, h.symm⟩

end Literal

end SyntaxWalk
