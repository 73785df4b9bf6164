/-!
# Halves of surrogate pairs

An escape in a string literal spells a code unit of UTF-16, which is either a character or one half
of a pair that together spell a character. A literal is read as a list of such units first, and
the halves are paired up afterwards.
-/

namespace MarkupCompiler.Text

/-- A character, or the code of half a surrogate pair. -/
inductive CodeUnit where
  | char (c : Char)
  | half (code : Nat)
  deriving DecidableEq, Repr, Inhabited

namespace CodeUnit

/-- Whether a code is that of the first half of a pair. -/
def isHigh (code : Nat) : Bool := 0xD800 ≤ code && code ≤ 0xDBFF

/-- Whether a code is that of the second half of a pair. -/
def isLow (code : Nat) : Bool := 0xDC00 ≤ code && code ≤ 0xDFFF

/-- The unit with a code. -/
def ofCode (code : Nat) : CodeUnit :=
  if isHigh code || isLow code then half code else char (Char.ofNat code)

/-- The character that two halves spell. -/
def pair (high low : Nat) : Char :=
  Char.ofNat (0x10000 + (high - 0xD800) * 0x400 + (low - 0xDC00))

/-- Pairs up neighbouring halves; a half that is left over is written by `lone`. -/
def joinBy (lone : Nat → List Char) : List CodeUnit → List Char
  | [] => []
  | char c :: units => c :: joinBy lone units
  | [half code] => lone code
  | half high :: char c :: units => lone high ++ c :: joinBy lone units
  | half high :: half low :: units =>
    if isHigh high && isLow low then pair high low :: joinBy lone units
    else lone high ++ joinBy lone (half low :: units)

/-- Pairs up neighbouring halves; there is no text if a half is left over. -/
def join? : List CodeUnit → Option (List Char)
  | [] => some []
  | char c :: units => (join? units).map (c :: ·)
  | half high :: half low :: units =>
    if isHigh high && isLow low then (join? units).map (pair high low :: ·) else none
  | half _ :: _ => none

end CodeUnit

end MarkupCompiler.Text
