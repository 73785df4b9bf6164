import MarkupCompiler.Json.Value
import MarkupCompiler.Text.Entity
import MarkupCompiler.Text.CodeUnit

/-!
# Reading JSON

A strict reader: no comments, no commas at the end of a list, no text after the value. Every
function reads from the front of a text and gives back what it did not read.
-/

namespace MarkupCompiler.Json

open Text (CodeUnit)

/-- A text without the blanks at its front. -/
def skipBlanks (text : List Char) : List Char :=
  text.dropWhile fun c => c == ' ' || c == '\t' || c == '\n' || c == '\r'

/-- The character that a one-letter escape stands for. -/
def escapeOf? (c : Char) : Option Char :=
  if c == '"' || c == '\\' || c == '/' then some c
  else if c == 'n' then some '\n'
  else if c == 'r' then some '\r'
  else if c == 't' then some '\t'
  else if c == 'b' then some (Char.ofNat 8)
  else if c == 'f' then some (Char.ofNat 12)
  else none

/-- Reads the units of a string literal whose opening quote was read, up to its closing quote. -/
def readUnits : List Char → Option (List CodeUnit × List Char)
  | '"' :: rest => some ([], rest)
  | '\\' :: 'u' :: a :: b :: c :: d :: rest => do
    let code ← Text.digitsValue? 16 0 [a, b, c, d]
    let (units, rest) ← readUnits rest
    return (CodeUnit.ofCode code :: units, rest)
  | '\\' :: c :: rest => do
    let character ← escapeOf? c
    let (units, rest) ← readUnits rest
    return (CodeUnit.char character :: units, rest)
  | c :: rest =>
    if c.toNat < 32 ∨ c = '\\' then none
    else do
      let (units, rest) ← readUnits rest
      return (CodeUnit.char c :: units, rest)
  | [] => none

/-- Reads a string literal whose opening quote was read. -/
def readString (text : List Char) : Option (Json × List Char) := do
  let (units, rest) ← readUnits text
  match CodeUnit.join? units with
  | some characters => return (string (String.ofList characters), rest)
  | none => return (brokenString, rest)

/-- Reads digits, at least one. -/
def readDigits (text : List Char) : Option (List Char × List Char) :=
  match text.takeWhile Char.isDigit with
  | [] => none
  | digits => some (digits, text.dropWhile Char.isDigit)

/-- Reads the whole part of a number: `0`, or digits that do not begin with `0`. -/
def readWhole : List Char → Option (List Char × List Char)
  | '0' :: rest => if (rest.takeWhile Char.isDigit).isEmpty then some (['0'], rest) else none
  | text => readDigits text

/-- Reads the fraction of a number, if there is one. -/
def readFraction : List Char → Option (List Char × List Char)
  | '.' :: rest => (readDigits rest).map fun (digits, rest) => ('.' :: digits, rest)
  | rest => some ([], rest)

/-- Reads the exponent of a number, if there is one. -/
def readExponent : List Char → Option (List Char × List Char)
  | c :: rest =>
    if c == 'e' || c == 'E' then
      match rest with
      | s :: rest =>
        if s == '+' || s == '-' then
          (readDigits rest).map fun (digits, rest) => (c :: s :: digits, rest)
        else (readDigits (s :: rest)).map fun (digits, rest) => (c :: digits, rest)
      | [] => none
    else some ([], c :: rest)
  | [] => some ([], [])

/-- Reads a number. -/
def readNumber (text : List Char) : Option (Json × List Char) := do
  let (sign, text) := match text with
    | '-' :: rest => (['-'], rest)
    | _ => ([], text)
  let (whole, rest) ← readWhole text
  let (fraction, rest) ← readFraction rest
  let (exponent, rest) ← readExponent rest
  return (number (sign ++ whole ++ fraction ++ exponent), rest)

/-- Reads a word of the language. -/
def readWord (word : String) (value : Json) (text : List Char) : Option (Json × List Char) :=
  if word.toList.isPrefixOf text then some (value, text.drop word.toList.length) else none

/-- Reads the name of a member, if it has a text, and the colon after it. -/
def readName (text : List Char) : Option (Option String × List Char) :=
  match skipBlanks text with
  | '"' :: rest => do
    let (units, rest) ← readUnits rest
    match skipBlanks rest with
    | ':' :: rest => return ((CodeUnit.join? units).map String.ofList, rest)
    | _ => none
  | _ => none

/-- The object with members that were read. There is none to look names up in if one of the names
has no text. -/
def ofMembers (members : List (Option String × Json)) : Json :=
  match members.mapM fun member => member.1.map fun name => (name, member.2) with
  | some members => object members
  | none => brokenObject

mutual

/-- Reads a value; `depth` bounds how deep values stand in one another. -/
def readValue (depth : Nat) (text : List Char) : Option (Json × List Char) :=
  match depth with
  | 0 => none
  | depth + 1 =>
    match skipBlanks text with
    | '"' :: rest => readString rest
    | '[' :: rest =>
      match skipBlanks rest with
      | ']' :: rest => some (array [], rest)
      | _ => (readItems depth rest).map fun (items, rest) => (array items, rest)
    | '{' :: rest =>
      match skipBlanks rest with
      | '}' :: rest => some (object [], rest)
      | _ => (readMembers depth rest).map fun (members, rest) => (ofMembers members, rest)
    | 'n' :: rest => readWord "null" null ('n' :: rest)
    | 't' :: rest => readWord "true" (bool true) ('t' :: rest)
    | 'f' :: rest => readWord "false" (bool false) ('f' :: rest)
    | rest => readNumber rest

/-- Reads the items of an array and the bracket that closes it. -/
def readItems (depth : Nat) (text : List Char) : Option (List Json × List Char) :=
  match depth with
  | 0 => none
  | depth + 1 => do
    let (item, rest) ← readValue depth text
    match skipBlanks rest with
    | ',' :: rest =>
      let (items, rest) ← readItems depth rest
      return (item :: items, rest)
    | ']' :: rest => return ([item], rest)
    | _ => none

/-- Reads the members of an object and the brace that closes it. -/
def readMembers (depth : Nat) (text : List Char) :
    Option (List (Option String × Json) × List Char) :=
  match depth with
  | 0 => none
  | depth + 1 => do
    let (name, rest) ← readName text
    let (value, rest) ← readValue depth rest
    match skipBlanks rest with
    | ',' :: rest =>
      let (members, rest) ← readMembers depth rest
      return ((name, value) :: members, rest)
    | '}' :: rest => return ([(name, value)], rest)
    | _ => none

end

/-- Reads a text that is one value. Each value and each place in a list takes a character of its
own, so the length of the text bounds the depth. -/
def parse? (text : List Char) : Option Json := do
  let (value, rest) ← readValue (2 * text.length + 1) text
  if (skipBlanks rest).isEmpty then some value else none

end MarkupCompiler.Json
