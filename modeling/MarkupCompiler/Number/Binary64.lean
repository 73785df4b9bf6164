/-!
# Binary floating-point numbers

Number literals denote 64-bit binary floating-point values. Here such a value is an exact dyadic
number, `mantissa * 2 ^ exponent` with a sign, and a literal is read by rounding an exact quotient
of natural numbers to the nearest value, a tie going to the even mantissa.
-/

namespace MarkupCompiler

/-- A 64-bit binary floating-point value. A finite one is `mantissa * 2 ^ exponent`, with a sign;
its mantissa has at most 53 bits and its exponent is at least `-1074`. -/
inductive Binary64 where
  | nan
  | infinite (negative : Bool)
  | finite (negative : Bool) (mantissa : Nat) (exponent : Int)
  deriving DecidableEq, Repr, Inhabited

namespace Binary64

/-- The number of bits of a mantissa. -/
def precision : Nat := 53

/-- The exponent of the smallest positive value. -/
def leastExponent : Int := -1074

/-- The exponent of the largest finite values. -/
def greatestExponent : Int := 971

/-- The quotient of two natural numbers rounded to the nearest, a tie to the even one. -/
def roundDiv (num den : Nat) : Nat :=
  let quotient := num / den
  let rest := num % den
  if den < 2 * rest ∨ (2 * rest = den ∧ quotient % 2 = 1) then quotient + 1 else quotient

/-- The quotient `num / den` divided by a power of two, again as a quotient. -/
def scaleDown (num den : Nat) (exponent : Int) : Nat × Nat :=
  if 0 ≤ exponent then (num, den * Nat.pow 2 exponent.toNat)
  else (num * Nat.pow 2 (-exponent).toNat, den)

/-- The exponent at which the quotient `num / den` is rounded: its integer part then has as many
bits as a mantissa, or fewer at the least exponent. -/
def roundingExponent (num den : Nat) : Int :=
  let guess := max ((num.log2 : Int) - den.log2 - precision) leastExponent
  let (n, d) := scaleDown num den guess
  if n / d < Nat.pow 2 precision then guess else guess + 1

/-- The value nearest to the quotient `num / den`. -/
def ofQuotient (negative : Bool) (num den : Nat) : Binary64 :=
  if num = 0 then finite negative 0 leastExponent
  else
    let exponent := roundingExponent num den
    let (n, d) := scaleDown num den exponent
    let mantissa := roundDiv n d
    let (mantissa, exponent) :=
      if mantissa = Nat.pow 2 precision then (Nat.pow 2 (precision - 1), exponent + 1)
      else (mantissa, exponent)
    if greatestExponent < exponent then infinite negative else finite negative mantissa exponent

/-- The value nearest to `digits * 10 ^ exponent`. Numbers far outside the range of the finite
values are settled by their size alone. -/
def ofDecimal (negative : Bool) (digits : Nat) (exponent : Int) : Binary64 :=
  let size := ((Nat.toDigits 10 digits).length : Int) + exponent
  if digits = 0 ∨ size < -400 then finite negative 0 leastExponent
  else if 400 < size then infinite negative
  else if 0 ≤ exponent then ofQuotient negative (digits * Nat.pow 10 exponent.toNat) 1
  else ofQuotient negative digits (Nat.pow 10 (-exponent).toNat)

/-- The number that decimal digits write. -/
def digitsToNat (digits : List Char) : Nat :=
  digits.foldl (fun value c => value * 10 + (c.toNat - '0'.toNat)) 0

/-- Reads an exponent: an optional sign and digits. -/
def exponentOf? (text : List Char) : Option Int :=
  let (negative, digits) := match text with
    | '-' :: rest => (true, rest)
    | '+' :: rest => (false, rest)
    | _ => (false, text)
  if digits.isEmpty || !digits.all Char.isDigit then none
  else
    let value : Int := digitsToNat digits
    some (if negative then -value else value)

/-- Reads an unsigned decimal number: digits, perhaps with a point among them and an exponent after
them. -/
def ofUnsigned? (negative : Bool) (text : List Char) : Option Binary64 := do
  let isMark (c : Char) : Bool := c == 'e' || c == 'E'
  let mantissa := text.takeWhile fun c => !isMark c
  let shift ← match text.dropWhile fun c => !isMark c with
    | [] => some 0
    | _ :: exponent => exponentOf? exponent
  let whole := mantissa.takeWhile (· != '.')
  let fraction := (mantissa.dropWhile (· != '.')).drop 1
  if (whole ++ fraction).isEmpty || !(whole ++ fraction).all Char.isDigit then none
  else some (ofDecimal negative (digitsToNat (whole ++ fraction)) (shift - fraction.length))

/-- Reads a decimal number with an optional sign, or one of the words `NaN` and `inf`. -/
def ofText? (text : String) : Option Binary64 :=
  match text.toList with
  | ['N', 'a', 'N'] => some nan
  | ['i', 'n', 'f'] => some (infinite false)
  | ['-', 'i', 'n', 'f'] => some (infinite true)
  | '-' :: rest => ofUnsigned? true rest
  | '+' :: rest => ofUnsigned? false rest
  | rest => ofUnsigned? false rest

end Binary64

end MarkupCompiler
