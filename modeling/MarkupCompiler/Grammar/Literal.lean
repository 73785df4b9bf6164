import MarkupCompiler.Grammar.Function

/-!
# Literals of several parts

Template literals, regular expressions, array and object literals.
-/

namespace MarkupCompiler.Grammar

open Syntax

/-- Reads a regular expression from the slash at the cursor on. -/
def regexp : Parser Expr := do
  let cursor ← get
  let start := cursor.token.span.start
  match scanPattern false false (cursor.here.drop 1) with
  | none => failAt (.lexical .unterminatedPattern) start
  | some (bytes, rest) =>
    let flags := scanName 0 rest
    let stop := start + 1 + bytes
    if !flags.valid || !goodFlags flags.name then failAt (.lexical .badPatternFlag) stop
    set (cursor.moveTo (stop + Text.byteLength (rest.take flags.written))
      (rest.drop flags.written))
    return .literal (← spanFrom start) .regexp

namespace Rules

/-- A template literal from its first backquote on: its stretches of text and the expressions
between them. -/
def templateParts (r : Rules) : Parser (List Quasi × List Expr) := do
  loop (([], []) : List Quasi × List Expr) fun (quasis, values) => do
    let cursor ← get
    let span := cursor.token.span
    match scanTemplate 0 cursor.after with
    | none => failAt (.lexical .unterminatedString) span.start
    | some scan =>
      let quasi : Quasi :=
        ⟨String.ofList (Text.unifyLineEnds scan.raw), scan.cooked.map unitsText⟩
      if scan.isLast then
        set (cursor.moveTo (span.stop + scan.bytes + 1) scan.rest)
        return .inr ((quasi :: quasis).reverse, values.reverse)
      else
        set (cursor.moveTo (span.stop + scan.bytes + 2) scan.rest)
        let value ← r.inner
        expectHere .rbrace
        return .inl (quasi :: quasis, value :: values)

/-- A template literal. -/
def template (r : Rules) : Parser Expr := do
  let start ← startOffset
  let (quasis, values) ← r.templateParts
  if quasis.any (·.cooked.isNone) then breaks .templateEscape start
  return .template (← spanFrom start) quasis values

/-- An array literal. -/
def arrayLiteral (r : Rules) : Parser Expr := do
  let start ← startOffset
  expect .lbracket
  let items ← listUntil .rbracket (do if ← at? .comma then return .hole else r.item)
  expect .rbracket
  return .array (← spanFrom start) items

/-- A property of an object literal. -/
def objectProperty (r : Rules) : Parser Property := do
  let start ← startOffset
  if ← eat? .ellipsis then return .spread (← r.innerItem)
  else
    let head ← methodHead
    let first ← token
    let (key, isComputed) ← r.propertyName
    if head != {} || (← at? .lparen) || (← at? .lt) then
      let function ← r.methodRest head
      return .method (← spanFrom start) key function
    else if ← eat? .colon then return .field key isComputed (← r.innerItem)
    else if isComputed || !(← isIdentifier first) then unexpected
    else if ← eat? .eq then
      modify fun cursor => { cursor with defaults := start :: cursor.defaults }
      return .shorthandDefault key (← r.innerItem)
    else return .shorthand key

/-- An object literal. -/
def objectLiteral (r : Rules) : Parser Expr := do
  let start ← startOffset
  expect .lbrace
  let properties ← listUntil .rbrace r.objectProperty
  expect .rbrace
  return .object (← spanFrom start) properties

end Rules

end MarkupCompiler.Grammar
