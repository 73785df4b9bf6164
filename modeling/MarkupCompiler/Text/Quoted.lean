import MarkupCompiler.Text.Bytes

/-!
# Quoted texts

String literals are written between double quotes. The quote, the backslash and the characters
below the space are escaped, which makes the literal one of JSON as well as of the target language.
-/

namespace MarkupCompiler.Text

/-- The lowercase hexadecimal digit of a number below sixteen. -/
def hexDigit (n : Nat) : Char :=
  if n < 10 then Char.ofNat ('0'.toNat + n) else Char.ofNat ('a'.toNat + (n - 10))

/-- How a character is written inside a string literal. -/
def quoteChar (c : Char) : List Char :=
  if c == '"' then ['\\', '"']
  else if c == '\\' then ['\\', '\\']
  else if c == '\n' then ['\\', 'n']
  else if c == '\r' then ['\\', 'r']
  else if c == '\t' then ['\\', 't']
  else if c.toNat == 8 then ['\\', 'b']
  else if c.toNat == 12 then ['\\', 'f']
  else if c.toNat < 32 then
    ['\\', 'u', '0', '0', hexDigit (c.toNat / 16), hexDigit (c.toNat % 16)]
  else [c]

/-- A text as a string literal. -/
def quoteChars (text : List Char) : List Char :=
  '"' :: (text.flatMap quoteChar ++ ['"'])

/-- A text as a string literal. -/
def quote (text : String) : String := String.ofList (quoteChars text.toList)

/-- A property name as it stands in an object literal: quoted unless it is an identifier name. -/
def quoteUnless (isPlain : List Char → Bool) (name : String) : String :=
  if isPlain name.toList then name else quote name

/-- Texts as an array literal of string literals. -/
def quoteArray (texts : List String) : String :=
  "[" ++ joinWith ", " (texts.map quote) ++ "]"

end MarkupCompiler.Text
