import SyntaxWalk.Number.Binary64

/-!
# The shortest decimal text of a binary64 number

The decimal numbers that round to a given binary64 number fill an interval around it, with its ends
included when the significand is even. The text uses the fewest digits with which some decimal number
lies in that interval, and of those the one nearest to the number, a tie going to the even digit.

The text is positional when the decimal exponent of the leading digit is between `-5` and `15`, with at
least one digit on each side of the point, and otherwise scientific with a signed exponent.
-/

set_option autoImplicit false

namespace SyntaxWalk.Binary64

/-- The decimal number `digits · 10 ^ exponent`. -/
structure Decimal where
  /-- The digits, read as one natural number. -/
  digits : Nat
  /-- The decimal exponent of the last digit. -/
  exponent : Int
  deriving DecidableEq

/-- The interval of the real numbers that round to a positive number, over a common denominator. -/
structure Interval where
  /-- Numerator of the lower end. -/
  lower : Nat
  /-- Numerator of the number itself. -/
  centre : Nat
  /-- Numerator of the upper end. -/
  upper : Nat
  /-- The common denominator. -/
  den : Nat
  /-- Do the two ends belong to the interval? -/
  closed : Bool

/-- The rounding interval of the magnitude of a number. Below a power of two the gap is half as wide. -/
def interval (x : Binary64) : Interval :=
  let quarter := x.exponent - 2
  let unit := Nat.pow 2 quarter.toNat
  let below := if x.significand = Nat.pow 2 52 ∧ minExponent < x.exponent then 1 else 2
  { lower := (4 * x.significand - below) * unit
    centre := 4 * x.significand * unit
    upper := (4 * x.significand + 2) * unit
    den := Nat.pow 2 (-quarter).toNat
    closed := x.significand % 2 = 0 }

/-- Does `d · up / down` lie in the interval? -/
def Interval.holds (i : Interval) (d up down : Nat) : Bool :=
  let point := d * up * i.den
  if i.closed then i.lower * down ≤ point && point ≤ i.upper * down
  else i.lower * down < point && point < i.upper * down

/-- The best of the two neighbours of the number on the grid of the multiples of `10 ^ k`, if one of
them lies in the interval. -/
def Interval.onGrid? (i : Interval) (k : Int) : Option Decimal :=
  let up := Nat.pow 10 k.toNat
  let down := Nat.pow 10 (-k).toNat
  let floor := i.centre * down / (up * i.den)
  let past := 2 * (i.centre * down - floor * up * i.den)
  let step := up * i.den
  let upperNearer := step < past || (step == past && floor % 2 == 1)
  match i.holds floor up down, i.holds (floor + 1) up down with
  | true, true => some ⟨if upperNearer then floor + 1 else floor, k⟩
  | true, false => some ⟨floor, k⟩
  | false, true => some ⟨floor + 1, k⟩
  | false, false => none

/-- The decimal exponent of the leading digit of a positive number. -/
def Interval.magnitude (i : Interval) : Int :=
  let whole := i.centre / i.den
  if whole = 0 then
    match (List.range 400).find? fun k => i.den ≤ i.centre * Nat.pow 10 k with
    | some k => -(k : Int)
    | none => 0
  else (Nat.toDigits 10 whole).length - 1

/-- The decimal number with the fewest digits that rounds to the magnitude of a non-zero number. -/
def shortest (x : Binary64) : Decimal :=
  let i := x.interval
  let top := i.magnitude
  match (List.range 17).findSome? fun n => i.onGrid? (top - (n : Nat)) with
  | some d => d
  | none => ⟨x.num, 0⟩

/-- The digits without trailing zeros. -/
def significantDigits (n : Nat) : List Char :=
  ((Nat.toDigits 10 n).reverse.dropWhile (· == '0')).reverse

/-- The digits `cs`, the first of them at decimal exponent `e`, in positional notation. -/
def positional (cs : List Char) (e : Int) : String :=
  if e < 0 then
    "0." ++ String.ofList (List.replicate ((-e).toNat - 1) '0' ++ cs)
  else
    let width := e.toNat + 1
    let padded := cs ++ List.replicate (width - cs.length) '0'
    let fraction := padded.drop width
    String.ofList (padded.take width) ++ "." ++
      String.ofList (if fraction.isEmpty then ['0'] else fraction)

/-- The digits `cs`, the first of them at decimal exponent `e`, in scientific notation. -/
def scientific (cs : List Char) (e : Int) : String :=
  let mantissa := match cs with
    | [] => ""
    | [c] => String.singleton c
    | c :: rest => String.singleton c ++ "." ++ String.ofList rest
  mantissa ++ "e" ++ (if e < 0 then "-" else "+") ++ toString e.natAbs

/-- The shortest text that reads back as the number. -/
def text (x : Binary64) : String :=
  let sign := if x.negative then "-" else ""
  if x.isZero then sign ++ "0.0"
  else
    let d := x.shortest
    let all := Nat.toDigits 10 d.digits
    let top := d.exponent + all.length - 1
    let cs := significantDigits d.digits
    sign ++ if -5 ≤ top ∧ top ≤ 15 then positional cs top else scientific cs top

end SyntaxWalk.Binary64
