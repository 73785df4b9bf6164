import MarkupCompiler.Number.Shortest

/-!
# Numbers as attribute text

A number that is known at compile time is written into a template as text: whole numbers below
`10 ^ 21` with all their digits, larger ones with an exponent, and fractions with the fewest digits
that read back, never with an exponent.
-/

namespace MarkupCompiler.Binary64

/-- The least number that is written with an exponent. -/
def exponentFrom : Nat := Nat.pow 10 21

/-- Digits of a whole number. -/
def decimalDigits (n : Nat) : List Char := Nat.toDigits 10 n

/-- A decimal number with one digit before the point and a positive exponent. -/
def printScientific (d : Decimal) : List Char :=
  let digits := decimalDigits d.digits
  let exponent := (d.exponent + digits.length - 1).toNat
  let fraction := digits.drop 1
  digits.take 1 ++ (if fraction.isEmpty then [] else '.' :: fraction)
    ++ ['e', '+'] ++ decimalDigits exponent

/-- A decimal number written out in full. -/
def printPositional (d : Decimal) : List Char :=
  let digits := decimalDigits d.digits
  let point := d.exponent + digits.length
  if 0 ≤ d.exponent then digits ++ List.replicate d.exponent.toNat '0'
  else if 0 < point then digits.take point.toNat ++ '.' :: digits.drop point.toNat
  else '0' :: '.' :: List.replicate (-point).toNat '0' ++ digits

/-- A positive value without its sign. -/
def printMagnitude (mantissa : Nat) (exponent : Int) : List Char :=
  let q := dyadic mantissa exponent
  if exponentFrom * q.den ≤ q.num then printScientific (shortest mantissa exponent)
  else if q.num % q.den = 0 then decimalDigits (q.num / q.den)
  else printPositional (shortest mantissa exponent)

/-- The text of a number. Zero has no sign. -/
def print : Binary64 → String
  | nan => "NaN"
  | infinite negative => if negative then "-Infinity" else "Infinity"
  | finite negative mantissa exponent =>
    if mantissa = 0 then "0"
    else String.ofList ((if negative then ['-'] else []) ++ printMagnitude mantissa exponent)

end MarkupCompiler.Binary64
