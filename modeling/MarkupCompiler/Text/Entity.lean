import MarkupCompiler.Text.Bytes

/-!
# Character references

Markup text and quoted attribute values may spell a character as `&name;`, `&#decimal;` or
`&#xhexadecimal;`. `decode` reads such references in one pass from left to right; what is not a
reference stays as written, and a character that came out of a reference is not read again.
-/

namespace MarkupCompiler.Text

/-- The value of a digit in bases up to sixteen. -/
def digitValue? (base : Nat) (c : Char) : Option Nat :=
  let value? :=
    if '0' ≤ c ∧ c ≤ '9' then some (c.toNat - '0'.toNat)
    else if 'a' ≤ c ∧ c ≤ 'f' then some (c.toNat - 'a'.toNat + 10)
    else if 'A' ≤ c ∧ c ≤ 'F' then some (c.toNat - 'A'.toNat + 10)
    else none
  value?.filter (· < base)

/-- The number that digits write, `value` being that of the digits before them. -/
def digitsValue? (base : Nat) : Nat → List Char → Option Nat
  | value, [] => some value
  | value, c :: cs => do digitsValue? base (value * base + (← digitValue? base c)) cs

/-- The number below `2 ^ 32` that a text writes: digits, at least one, after at most one plus
sign. -/
def word32? (base : Nat) (text : List Char) : Option Nat :=
  let digits := match text with
    | '+' :: rest => rest
    | _ => text
  if digits.isEmpty then none
  else (digitsValue? base 0 digits).filter (· < Nat.pow 2 32)

/-- The character with a code point, if the code point is a scalar value. -/
def scalar? (code : Nat) : Option Char :=
  if code.isValidChar then some (Char.ofNat code) else none

/-- The references that are spelled with a name. -/
def namedReferences : List (String × Char) :=
  [("amp", '&'), ("lt", '<'), ("gt", '>'), ("quot", '"'), ("apos", '\''), ("nbsp", '\u00a0'),
    ("copy", '©'), ("reg", '®'), ("hellip", '…'), ("mdash", '—'),
    ("ndash", '–'), ("times", '×'), ("middot", '·')]

/-- The character that the text between `&` and `;` refers to. -/
def reference? : List Char → Option Char
  | '#' :: 'x' :: digits => word32? 16 digits >>= scalar?
  | '#' :: 'X' :: digits => word32? 16 digits >>= scalar?
  | '#' :: digits => word32? 10 digits >>= scalar?
  | name => (namedReferences.find? fun entry => entry.1.toList == name).map (·.2)

/-- The text up to the next semicolon and the number of its characters, if that semicolon is at
most `room` bytes away. -/
def upToSemicolon? : Nat → List Char → Option (List Char)
  | _, [] => none
  | room, c :: cs =>
    if c == ';' then some []
    else if c.utf8Size ≤ room then (upToSemicolon? (room - c.utf8Size) cs).map (c :: ·)
    else none

/-- The widest reference that is read: the semicolon stands at most ten bytes after the `&`. -/
def referenceWidth : Nat := 9

/-- Reads character references; the first `skip` characters were part of the last one. -/
def decodeFrom : Nat → List Char → List Char
  | _, [] => []
  | skip + 1, _ :: cs => decodeFrom skip cs
  | 0, c :: cs =>
    if c == '&' then
      match (upToSemicolon? referenceWidth cs).bind fun name => (reference? name).map (name, ·) with
      | some (name, character) => character :: decodeFrom (name.length + 1) cs
      | none => c :: decodeFrom 0 cs
    else c :: decodeFrom 0 cs

/-- A text with its character references read. -/
def decode (text : String) : String := String.ofList (decodeFrom 0 text.toList)

end MarkupCompiler.Text
