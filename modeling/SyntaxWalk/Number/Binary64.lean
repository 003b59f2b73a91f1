/-!
# Finite binary64 numbers

A finite double-precision number is `± significand · 2 ^ exponent`. Every operation computes its exact
rational result first and rounds once, to the nearest representable number, a tie going to the even
significand; a result beyond the largest finite number is `none`. All arithmetic is on natural numbers,
so each number and each rounding can be reasoned about.
-/

set_option autoImplicit false

namespace SyntaxWalk

/-- The finite number `± significand · 2 ^ exponent`. -/
structure Binary64 where
  /-- Is the sign negative? Zero has both signs. -/
  negative : Bool
  /-- The significand, below `2 ^ 53`. -/
  significand : Nat
  /-- The binary exponent, from `-1074` to `971`. -/
  exponent : Int
  deriving DecidableEq

namespace Binary64

/-- The least binary exponent. -/
def minExponent : Int := -1074

/-- The greatest binary exponent of a finite number. -/
def maxExponent : Int := 971

/-- The quotient rounded to the nearest natural number, a tie going to the even one. -/
def roundQuotient (num den : Nat) : Nat :=
  let down := num / den
  let twice := 2 * (num % den)
  if twice < den then down
  else if den < twice then down + 1
  else if down % 2 = 0 then down
  else down + 1

/-- The ratio `num / den` divided by `2 ^ e`, as numerator and denominator. -/
def shiftRatio (num den : Nat) (e : Int) : Nat × Nat :=
  if 0 ≤ e then (num, den * Nat.pow 2 e.toNat) else (num * Nat.pow 2 (-e).toNat, den)

/-- The exponent at which the ratio has a significand of at most 53 bits. -/
def exponentOf (num den : Nat) : Int :=
  let guess : Int := (Nat.log2 num : Int) - (Nat.log2 den : Int) - 53
  let low := shiftRatio num den guess
  let tight := if low.1 / low.2 < Nat.pow 2 53 then guess else guess + 1
  max tight minExponent

/-- The number nearest to `± num / den`, or `none` beyond the largest finite number. -/
def ofRatio (negative : Bool) (num den : Nat) : Option Binary64 :=
  if num = 0 then some ⟨negative, 0, minExponent⟩
  else
    let e := exponentOf num den
    let scaled := shiftRatio num den e
    let m := roundQuotient scaled.1 scaled.2
    let (m, e) := if m = Nat.pow 2 53 then (Nat.pow 2 52, e + 1) else (m, e)
    if e ≤ maxExponent then some ⟨negative, m, e⟩ else none

/-- The number nearest to a natural number. -/
def ofNat (n : Nat) : Option Binary64 :=
  ofRatio false n 1

/-- Numerator of the magnitude. -/
def num (x : Binary64) : Nat :=
  x.significand * Nat.pow 2 x.exponent.toNat

/-- Denominator of the magnitude. -/
def den (x : Binary64) : Nat :=
  Nat.pow 2 (-x.exponent).toNat

/-- Is the number a zero of either sign? -/
def isZero (x : Binary64) : Bool :=
  x.significand = 0

/-- The number with the opposite sign. -/
def negate (x : Binary64) : Binary64 :=
  { x with negative := !x.negative }

/-- The rounded product. -/
def mul (x y : Binary64) : Option Binary64 :=
  ofRatio (x.negative != y.negative) (x.num * y.num) (x.den * y.den)

/-- The rounded quotient; the divisor is not a zero. -/
def div (x y : Binary64) : Option Binary64 :=
  ofRatio (x.negative != y.negative) (x.num * y.den) (x.den * y.num)

/-- Is the number a whole number? -/
def isWhole (x : Binary64) : Bool :=
  x.num % x.den = 0

/-- Is the number at least the given natural number? -/
def atLeast (x : Binary64) (n : Nat) : Bool :=
  if x.negative then x.isZero && n = 0 else n * x.den ≤ x.num

end Binary64

end SyntaxWalk
