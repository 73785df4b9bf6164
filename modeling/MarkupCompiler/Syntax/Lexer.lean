import MarkupCompiler.Syntax.Token
import MarkupCompiler.Text.CodeUnit
import MarkupCompiler.Text.Entity
import MarkupCompiler.Text.Letter
import MarkupCompiler.Text.Lines

/-!
# Reading tokens

What a stretch of text is depends on the place: a `/` may divide or begin a regular expression, and
between tags any text stands for itself. So each kind of token has a reader of its own, which works
on the text from some offset on, and the grammar chooses among them.
-/

namespace MarkupCompiler.Syntax

open Text (CodeUnit)

/-- Whether a character ends a line. -/
def isLineEnd (c : Char) : Bool :=
  c == '\n' || c == '\r' || c.toNat == 0x2028 || c.toNat == 0x2029

/-- Whether a character is a blank of the language, line ends apart. -/
def isSpace (c : Char) : Bool :=
  let n := c.toNat
  n == 9 || n == 11 || n == 12 || n == 0x20 || n == 0x85 || n == 0xA0 || n == 0xFEFF
    || n == 0x1680 || n == 0x180E || (0x2000 ≤ n && n ≤ 0x200B) || n == 0x202F || n == 0x205F
    || n == 0x3000

/-! ## Blanks and comments -/

/-- Where the reader of blanks stands: between tokens, or in a comment. -/
inductive BlankState where
  | plain
  | lineComment
  | blockComment (start : Nat)

/-- The text after the blanks and comments at the front of a text. -/
structure Blanks where
  offset : Nat
  rest : List Char
  newLine : Bool
  /-- The offset of a comment that is not closed. -/
  openComment : Option Nat

/-- Reads over blanks and comments; `offset` is that of the text, and `newLine` tells whether a line
has ended so far. -/
def skipBlanks : BlankState → Nat → Bool → List Char → Blanks
  | .blockComment start, offset, newLine, [] => ⟨offset, [], newLine, some start⟩
  | _, offset, newLine, [] => ⟨offset, [], newLine, none⟩
  | .plain, offset, newLine, '/' :: '/' :: rest =>
    skipBlanks .lineComment (offset + 2) newLine rest
  | .plain, offset, newLine, '/' :: '*' :: rest =>
    skipBlanks (.blockComment offset) (offset + 2) newLine rest
  | .plain, offset, newLine, c :: rest =>
    if isLineEnd c then skipBlanks .plain (offset + c.utf8Size) true rest
    else if isSpace c then skipBlanks .plain (offset + c.utf8Size) newLine rest
    else ⟨offset, c :: rest, newLine, none⟩
  | .lineComment, offset, newLine, c :: rest =>
    if isLineEnd c then skipBlanks .plain (offset + c.utf8Size) true rest
    else skipBlanks .lineComment (offset + c.utf8Size) newLine rest
  | .blockComment _, offset, newLine, '*' :: '/' :: rest =>
    skipBlanks .plain (offset + 2) newLine rest
  | .blockComment start, offset, newLine, c :: rest =>
    skipBlanks (.blockComment start) (offset + c.utf8Size) (newLine || isLineEnd c) rest

/-! ## Names -/

/-- Reads the code of a `\u` escape, given the text after the `u`, and the number of characters that
it takes. -/
def unicodeEscape? : List Char → Option (Nat × Nat)
  | '{' :: rest =>
    let digits := rest.takeWhile (· != '}')
    if digits.isEmpty || digits.length == rest.length then none
    else
      match Text.digitsValue? 16 0 digits with
      | some code => if code ≤ 0x10FFFF then some (code, digits.length + 2) else none
      | none => none
  | a :: b :: c :: d :: _ => (Text.digitsValue? 16 0 [a, b, c, d]).map (·, 4)
  | _ => none

/-- A name at the front of a text. -/
structure NameScan where
  /-- The characters that the name stands for. -/
  name : List Char
  /-- The characters that it is written with. -/
  written : Nat
  escaped : Bool
  valid : Bool

/-- Reads a name; the first `skip` characters belong to an escape that was read. -/
def scanName : Nat → List Char → NameScan
  | _, [] => ⟨[], 0, false, true⟩
  | skip + 1, _ :: rest =>
    let scan := scanName skip rest
    { scan with written := scan.written + 1 }
  | 0, c :: rest =>
    if Text.isNamePart c then
      let scan := scanName 0 rest
      { scan with name := c :: scan.name, written := scan.written + 1 }
    else if c == '\\' then
      match rest with
      | 'u' :: tail =>
        match unicodeEscape? tail with
        | some (code, width) =>
          let scan := scanName (width + 1) rest
          { name := Char.ofNat code :: scan.name, written := scan.written + 1, escaped := true,
            valid := scan.valid && Text.isNamePart (Char.ofNat code) }
        | none => ⟨[], 1, true, false⟩
      | _ => ⟨[], 1, true, false⟩
    else ⟨[], 0, false, true⟩

/-! ## Strings, templates and regular expressions -/

/-- What an escape in a string literal stands for, and the number of characters that it takes after
the backslash. -/
structure EscapeScan where
  units : List CodeUnit
  width : Nat
  /-- Whether the escape is one of the old octal kind, which templates refuse. -/
  octal : Bool := false

/-- The value of up to three octal digits, below 256, and their number. -/
def octalEscape (text : List Char) : Nat × Nat :=
  let digits := (text.take 3).takeWhile fun c => '0' ≤ c ∧ c ≤ '7'
  let value (ds : List Char) := ds.foldl (fun n c => n * 8 + (c.toNat - '0'.toNat)) 0
  if value digits < 256 then (value digits, digits.length)
  else (value (digits.take 2), (digits.take 2).length)

/-- Reads an escape, given the text after the backslash. -/
def scanEscape : List Char → Option EscapeScan
  | [] => none
  | c :: rest =>
    if c == 'n' then some { units := [.char '\n'], width := 1 }
    else if c == 't' then some { units := [.char '\t'], width := 1 }
    else if c == 'r' then some { units := [.char '\r'], width := 1 }
    else if c == 'b' then some { units := [.char (Char.ofNat 8)], width := 1 }
    else if c == 'v' then some { units := [.char (Char.ofNat 11)], width := 1 }
    else if c == 'f' then some { units := [.char (Char.ofNat 12)], width := 1 }
    else if c == '\r' then
      some { units := [], width := if rest.head? == some '\n' then 2 else 1 }
    else if isLineEnd c then some { units := [], width := 1 }
    else if c == 'x' then
      match rest with
      | a :: b :: _ =>
        (Text.digitsValue? 16 0 [a, b]).map fun code =>
          { units := [CodeUnit.ofCode code], width := 3 }
      | _ => none
    else if c == 'u' then
      (unicodeEscape? rest).map fun (code, width) =>
        { units := [CodeUnit.ofCode code], width := width + 1 }
    else if c == '0' && !(rest.head?.any Char.isDigit) then
      some { units := [.char (Char.ofNat 0)], width := 1 }
    else if '0' ≤ c ∧ c ≤ '7' then
      let (code, width) := octalEscape (c :: rest)
      some { units := [CodeUnit.ofCode code], width := width, octal := true }
    else if c == '8' || c == '9' then some { units := [.char c], width := 1, octal := true }
    else some { units := [.char c], width := 1 }

/-- The text that code units spell. A half that has no partner is written as its code in
hexadecimal after a replacement character. -/
def unitsText (units : List CodeUnit) : String :=
  String.ofList (CodeUnit.joinBy (fun code => Char.ofNat 0xFFFD :: Nat.toDigits 16 code) units)

/-- A string literal, from after its opening quote to its closing quote. -/
inductive StringScan where
  | closed (units : List CodeUnit) (written : Nat)
  | unclosed
  | badEscape

/-- A character more in a string literal, and what it stands for. -/
def StringScan.add (units : List CodeUnit) : StringScan → StringScan
  | closed rest written => closed (units ++ rest) (written + 1)
  | scan => scan

/-- Reads a string literal up to its closing quote, which counts as written; the first `skip`
characters belong to an escape that was read. -/
def scanString (quote : Char) : Nat → List Char → StringScan
  | _, [] => .unclosed
  | skip + 1, _ :: rest => (scanString quote skip rest).add []
  | 0, c :: rest =>
    if c == quote then .closed [] 1
    else if c == '\n' || c == '\r' then .unclosed
    else if c == '\\' then
      match scanEscape rest with
      | some escape => (scanString quote escape.width rest).add escape.units
      | none => if rest.isEmpty then .unclosed else .badEscape
    else (scanString quote 0 rest).add [.char c]

/-- A stretch of a template between its delimiters. -/
structure TemplateScan where
  raw : List Char
  /-- What the stretch stands for, unless an escape in it is malformed. -/
  cooked : Option (List CodeUnit)
  /-- The bytes of the stretch, without its closing delimiter. -/
  bytes : Nat
  /-- Whether the template ends here, and does not go on with an expression. -/
  isLast : Bool
  rest : List Char

/-- A character more in a stretch of a template. -/
def TemplateScan.add (c : Char) (units : Option (List CodeUnit)) (scan : TemplateScan) :
    TemplateScan :=
  { scan with
    raw := c :: scan.raw
    cooked := do return (← units) ++ (← scan.cooked)
    bytes := scan.bytes + c.utf8Size }

/-- Reads a stretch of a template; there is none if the text ends first. The first `skip` characters
belong to an escape that was read. -/
def scanTemplate : Nat → List Char → Option TemplateScan
  | _, [] => none
  | skip + 1, c :: rest => (scanTemplate skip rest).map (·.add c (some []))
  | 0, c :: rest =>
    if c == '`' then some ⟨[], some [], 0, true, rest⟩
    else if c == '$' && rest.head? == some '{' then some ⟨[], some [], 0, false, rest.drop 1⟩
    else if c == '\\' then
      match scanEscape rest with
      | some escape =>
        let units := if escape.octal then none else some escape.units
        (scanTemplate escape.width rest).map (·.add c units)
      | none => (scanTemplate 1 rest).map (·.add c none)
    else if c == '\r' then
      let units := if rest.head? == some '\n' then [] else [CodeUnit.char '\n']
      (scanTemplate 0 rest).map (·.add c (some units))
    else (scanTemplate 0 rest).map (·.add c (some [.char c]))

/-- Reads the body of a regular expression up to its closing slash, and gives its bytes, the slash
included. -/
def scanPattern (inClass escaped : Bool) : List Char → Option (Nat × List Char)
  | [] => none
  | c :: rest =>
    if isLineEnd c then none
    else if escaped then
      (scanPattern inClass false rest).map fun (n, rest) => (n + c.utf8Size, rest)
    else if c == '/' && !inClass then some (1, rest)
    else
      let inClass := if c == '[' then true else if c == ']' then false else inClass
      (scanPattern inClass (c == '\\') rest).map fun (n, rest) => (n + c.utf8Size, rest)

/-- Whether the flags of a regular expression are known and written once each. -/
def goodFlags : List Char → Bool
  | [] => true
  | c :: rest => ['d', 'g', 'i', 'm', 's', 'u', 'v', 'y'].contains c && !rest.contains c
    && goodFlags rest

/-! ## Numbers -/

/-- Whether separators stand only between digits. -/
def goodSeparators : List Char → Bool
  | [] => true
  | ['_'] => false
  | '_' :: '_' :: _ => false
  | _ :: rest => goodSeparators rest

/-- Reads digits and separators. -/
def spanDigits (isDigit : Char → Bool) (text : List Char) : List Char × List Char :=
  (text.takeWhile fun c => isDigit c || c == '_', text.dropWhile fun c => isDigit c || c == '_')

/-- Whether digits with separators are well written. -/
def goodDigits (digits : List Char) : Bool := digits.head? != some '_' && goodSeparators digits

/-- A number at the front of a text. -/
structure NumberScan where
  kind : TokenKind
  written : Nat
  rest : List Char

/-- The number that a literal in a base other than ten stands for. -/
def scanRadix (base : Nat) (text : List Char) : NumberScan :=
  let (digits, rest) := spanDigits (fun c => (Text.digitValue? base c).isSome) text
  let value := Text.digitsValue? base 0 (digits.filter (· != '_'))
  let good := !digits.isEmpty && goodDigits digits
  match rest, value with
  | 'n' :: rest, some _ =>
    ⟨if good then .bigint else .fault .badNumber, digits.length + 3, rest⟩
  | rest, some value =>
    let kind := if good then .number (Binary64.ofQuotient false value 1) else .fault .badNumber
    ⟨kind, digits.length + 2, rest⟩
  | rest, none => ⟨.fault .badNumber, digits.length + 2, rest⟩

/-- Reads the fraction of a decimal literal, if there is one. -/
def scanFraction : List Char → List Char × List Char
  | '.' :: tail =>
    let (digits, rest) := spanDigits Char.isDigit tail
    ('.' :: digits, rest)
  | rest => ([], rest)

/-- Reads the exponent of a decimal literal, if there is one. -/
def scanExponent : List Char → List Char × List Char
  | c :: rest =>
    if c == 'e' || c == 'E' then
      match rest with
      | s :: tail =>
        if s == '+' || s == '-' then
          let (digits, rest) := spanDigits Char.isDigit tail
          (c :: s :: digits, rest)
        else
          let (digits, rest) := spanDigits Char.isDigit rest
          (c :: digits, rest)
      | [] => ([c], [])
    else ([], c :: rest)
  | [] => ([], [])

/-- Reads a decimal literal. -/
def scanDecimal (text : List Char) : NumberScan :=
  let (whole, rest) := spanDigits Char.isDigit text
  match rest with
  | 'n' :: rest =>
    ⟨if goodDigits whole then .bigint else .fault .badNumber, whole.length + 1, rest⟩
  | _ =>
    let (fraction, rest) := scanFraction rest
    let (exponent, rest) := scanExponent rest
    let written := whole ++ fraction ++ exponent
    let good := goodDigits whole && goodDigits (fraction.drop 1) && goodSeparators exponent
    let value := if good then Binary64.ofUnsigned? false (written.filter (· != '_')) else none
    ⟨match value with
      | some value => .number value
      | none => .fault .badNumber, written.length, rest⟩

/-- Reads a number literal without regard to what stands after it. -/
def scanNumeral (text : List Char) : NumberScan :=
  match text with
  | '0' :: c :: rest =>
    if c == 'x' || c == 'X' then scanRadix 16 rest
    else if c == 'o' || c == 'O' then scanRadix 8 rest
    else if c == 'b' || c == 'B' then scanRadix 2 rest
    else
      let digits := (c :: rest).takeWhile Char.isDigit
      if !digits.isEmpty && digits.all fun d => '0' ≤ d ∧ d ≤ '7' then
        let value := (Text.digitsValue? 8 0 digits).getD 0
        ⟨.number (Binary64.ofQuotient false value 1), digits.length + 1,
          (c :: rest).drop digits.length⟩
      else scanDecimal text
  | _ => scanDecimal text

/-- Reads a number literal. A digit or name right after it makes it malformed. -/
def scanNumber (text : List Char) : NumberScan :=
  let scan := scanNumeral text
  let clash := scan.rest.head?.any fun c => Text.isNameStart c || c.isDigit || c == '\\'
  if clash then { scan with kind := .fault .badNumber } else scan

/-! ## Tokens -/

/-- Reads a punctuator from a list of them. -/
def scanPunct? (puncts : List Punct) (text : List Char) : Option Punct :=
  puncts.find? fun p => p.text.toList.isPrefixOf text

/-- Reads a token that stands at the very front of a text, in the way of ordinary code. Gives its
kind and the number of characters that it takes. -/
def scanKind : List Char → TokenKind × Nat
  | [] => (.finish, 0)
  | c :: rest =>
    let text := c :: rest
    if Text.isNameStart c || c == '\\' then
      let scan := scanName 0 text
      let keyword := if scan.escaped then none else Keyword.ofName? scan.name
      if scan.valid then (.word (String.ofList scan.name) keyword, scan.written)
      else (.fault .badEscape, scan.written)
    else if c.isDigit || (c == '.' && rest.head?.any Char.isDigit) then
      let scan := scanNumber text
      (scan.kind, scan.written)
    else if c == '"' || c == '\'' then
      match scanString c 0 rest with
      | .closed units written => (.string (unitsText units), written + 1)
      | .unclosed => (.fault .unterminatedString, 1)
      | .badEscape => (.fault .badEscape, 1)
    else if c == '#' && rest.head?.any fun d => Text.isNameStart d || d == '\\' then
      let scan := scanName 0 rest
      if scan.valid then (.privateName (String.ofList scan.name), scan.written + 1)
      else (.fault .badEscape, scan.written + 1)
    else if c == '?' && rest.head? == some '.' && (rest.drop 1).head?.any Char.isDigit then
      (.punct .question, 1)
    else
      match scanPunct? Punct.direct text with
      | some p => (.punct p, p.text.length)
      | none => (.fault (.badCharacter c), 1)

end MarkupCompiler.Syntax
