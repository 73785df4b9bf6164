import MarkupCompiler.Number.Binary64

/-!
# The fewest decimal digits

A binary value is written in decimal with as few digits as still read back as that value, and among
those with the digits nearest to it. The search is over exact quotients: the value lies in an
interval of numbers that round to it, and for one digit, two digits and so on the two neighbours of
the value on that decimal grid are tested.
-/

namespace MarkupCompiler.Binary64

/-- The decimal number `digits * 10 ^ exponent`. -/
structure Decimal where
  digits : Nat
  exponent : Int
  deriving DecidableEq, Repr, Inhabited

/-- A positive quotient of natural numbers. -/
structure Ratio where
  num : Nat
  den : Nat

/-- The quotient `digits * 10 ^ exponent`. -/
def Decimal.toRatio (d : Decimal) : Ratio :=
  if 0 ≤ d.exponent then ⟨d.digits * Nat.pow 10 d.exponent.toNat, 1⟩
  else ⟨d.digits, Nat.pow 10 (-d.exponent).toNat⟩

/-- Whether one quotient is less than another. -/
def Ratio.blt (a b : Ratio) : Bool := decide (a.num * b.den < b.num * a.den)

/-- `mantissa * 2 ^ exponent` as a quotient. -/
def dyadic (mantissa : Nat) (exponent : Int) : Ratio :=
  if 0 ≤ exponent then ⟨mantissa * Nat.pow 2 exponent.toNat, 1⟩
  else ⟨mantissa, Nat.pow 2 (-exponent).toNat⟩

/-- The least number that rounds to `mantissa * 2 ^ exponent`, or the greatest that does not. Below
a power of two the values stand twice as close. -/
def lowerEnd (mantissa : Nat) (exponent : Int) : Ratio :=
  if mantissa = Nat.pow 2 (precision - 1) ∧ leastExponent < exponent then
    dyadic (4 * mantissa - 1) (exponent - 2)
  else dyadic (2 * mantissa - 1) (exponent - 1)

/-- The greatest number that rounds to `mantissa * 2 ^ exponent`, or the least that does not. -/
def upperEnd (mantissa : Nat) (exponent : Int) : Ratio :=
  dyadic (2 * mantissa + 1) (exponent - 1)

/-- Whether a decimal number rounds to `mantissa * 2 ^ exponent`: it lies between the two ends, or
on one of them if the mantissa is even. -/
def readsBack (mantissa : Nat) (exponent : Int) (d : Decimal) : Bool :=
  let q := d.toRatio
  let low := lowerEnd mantissa exponent
  let high := upperEnd mantissa exponent
  if mantissa % 2 = 0 then !q.blt low && !high.blt q else low.blt q && q.blt high

/-- The number of decimal digits before the point of a quotient; negative or zero if zeros follow
the point. -/
def decimalSize (q : Ratio) : Int :=
  if q.den ≤ q.num then (Nat.toDigits 10 (q.num / q.den)).length
  else
    let n := (Nat.toDigits 10 (q.den / q.num)).length
    if q.den ≤ q.num * Nat.pow 10 (n - 1) then 1 - ((n : Int) - 1) else 1 - (n : Int)

/-- The multiple of `10 ^ exponent` at or just below a quotient. -/
def gridBelow (q : Ratio) (exponent : Int) : Nat :=
  if 0 ≤ exponent then q.num / (q.den * Nat.pow 10 exponent.toNat)
  else q.num * Nat.pow 10 (-exponent).toNat / q.den

/-- Whether a quotient is as near to the grid point above it as to `below`, or nearer. -/
def roundsUp (q : Ratio) (below : Decimal) : Bool :=
  let middle : Decimal := ⟨10 * below.digits + 5, below.exponent - 1⟩
  !q.blt middle.toRatio

/-- The decimal number with the given number of digits that is nearest, if one of them reads back.
Of two that are equally near it is the greater. -/
def withDigits? (mantissa : Nat) (exponent : Int) (count : Nat) : Option Decimal :=
  let q := dyadic mantissa exponent
  let unit := decimalSize q - count
  let below : Decimal := ⟨gridBelow q unit, unit⟩
  let above : Decimal := ⟨below.digits + 1, unit⟩
  match readsBack mantissa exponent below, readsBack mantissa exponent above with
  | true, true => some (if roundsUp q below then above else below)
  | true, false => some below
  | false, true => some above
  | false, false => none

/-- A decimal number without zeros at its end. -/
def trimZeros : Nat → Decimal → Decimal
  | 0, d => d
  | steps + 1, d =>
    if d.digits % 10 = 0 ∧ 0 < d.digits then trimZeros steps ⟨d.digits / 10, d.exponent + 1⟩ else d

/-- The decimal number with the fewest digits that reads back as `mantissa * 2 ^ exponent`. Some
number of seventeen digits does, so the search ends there. -/
def shortest (mantissa : Nat) (exponent : Int) : Decimal :=
  let found := (List.range 17).findSome? fun i => withDigits? mantissa exponent (i + 1)
  trimZeros 17 (found.getD ⟨mantissa, exponent⟩)

end MarkupCompiler.Binary64
