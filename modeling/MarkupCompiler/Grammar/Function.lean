import MarkupCompiler.Grammar.Types

/-!
# Patterns, parameters and functions
-/

namespace MarkupCompiler.Grammar

open Syntax

/-- Whether a token can follow a modifier of a parameter. -/
def startsBinding (token : Token) : Parser Bool := do
  return (← isIdentifier token) || token.kind == .punct .lbracket || token.kind == .punct .lbrace

/-- The words before a parameter that make it a property of its class. -/
def parameterModifiers : Parser Unit := do
  if ← types? then
    let _ ← many
      (do
        let isModifier ←
          atOneOf? [.publicKw, .privateKw, .protectedKw, .readonlyKw, .overrideKw]
        return isModifier && (← startsBinding (← peek)))
      advance

/-- What the words before the name of a method make of it. -/
structure MethodHead where
  isAsync : Bool := false
  isGenerator : Bool := false
  isGetter : Bool := false
  isSetter : Bool := false
  deriving DecidableEq

/-- Reads the words before the name of a method. -/
def methodHead : Parser MethodHead := do
  let first ← token
  let next ← peek
  if ← eat? .star then return { isGenerator := true }
  else if isKeyword first .asyncKw && !next.onNewLine
      && (startsPropertyName next || next.kind == .punct .star) then
    advance
    return { isAsync := true, isGenerator := ← eat? .star }
  else if isKeyword first .getKw && startsPropertyName next then
    advance
    return { isGetter := true }
  else if isKeyword first .setKw && startsPropertyName next then
    advance
    return { isSetter := true }
  else return {}

/-- The number of parameters of a function, without a declared `this`. -/
def parameterCount : Expr → Nat
  | .function _ _ _ params _ =>
    (params.filter fun
      | .thisRef _ => false
      | _ => true).length
  | _ => 0

namespace Rules

/-- A pattern, with the value that it takes when none is given. -/
def bindingElement (r : Rules) : Parser Expr := do
  let start ← startOffset
  let target ← r.binding
  match ← r.initializer with
  | some value => return .assign (← spanFrom start) .plain target value
  | none => return target

/-- An element of an array pattern. -/
def patternItem (r : Rules) : Parser Item := do
  if ← at? .comma then return .hole
  else if ← eat? .ellipsis then
    let rest ← bracketed r.binding
    breaksIf (← at? .comma) .restPlace
    return .spread rest
  else return .value (← bracketed r.bindingElement)

/-- A property of an object pattern. -/
def patternProperty (r : Rules) : Parser Property := do
  if ← eat? .ellipsis then
    let rest ← bracketed r.binding
    breaksIf (← at? .comma) .restPlace
    return .spread rest
  else
    let first ← token
    let (key, isComputed) ← r.propertyName
    if ← eat? .colon then return .field key isComputed (← bracketed r.bindingElement)
    else if isComputed || !(← isIdentifier first) then unexpected
    else
      match ← bracketed r.initializer with
      | some value => return .shorthandDefault key value
      | none => return .shorthand key

/-- A name or pattern that is declared. -/
def bindingTarget (r : Rules) : Parser Expr := do
  let start ← startOffset
  if ← eat? .lbracket then
    let items ← listUntil .rbracket r.patternItem
    expect .rbracket
    return .array (← spanFrom start) items
  else if ← eat? .lbrace then
    let properties ← listUntil .rbrace r.patternProperty
    expect .rbrace
    return .object (← spanFrom start) properties
  else identifier

/-- A parameter: its decorators and its pattern. -/
def parameter (r : Rules) : Parser (List Expr) := do
  let decorators ← r.decorators
  parameterModifiers
  let isRest ← eat? .ellipsis
  let start ← startOffset
  let types ← types?
  let target ← if types && (← atKeyword? .thisKw) then
      advance
      pure (.thisRef (← spanFrom start))
    else r.binding
  if types then
    let _ ← eat? .question
  r.annotation
  let value ← r.initializer
  if isRest then breaksIf (← at? .comma) .restPlace
  match value with
  | some value => return decorators ++ [.assign (← spanFrom start) .plain target value]
  | none => return decorators ++ [target]

/-- The parameters of a function, in parentheses. -/
def parameterList (r : Rules) : Parser (Span × List Expr) := do
  let start ← startOffset
  expect .lparen
  let params ← listUntil .rparen (bracketed r.parameter)
  expect .rparen
  return (← spanFrom start, params.flatten)

/-- The rest of a function after its name: parameters and body. Where types may be written the body
may be left out. -/
def functionRest (r : Rules) (start : Nat) (kind : FunctionKind) : Parser Expr :=
  inFunction kind.isAsync kind.isGenerator do
    r.typeParameters
    let (paramSpan, params) ← r.params
    r.returnAnnotation
    let body ← if (← types?) && !(← at? .lbrace) then
        semicolon
        pure .missing
      else r.functionBody
    return .function (← spanFrom start) kind paramSpan params body

/-- A method from after its name on. -/
def methodRest (r : Rules) (head : MethodHead) : Parser Expr := do
  let start ← startOffset
  let function ← r.functionRest start ⟨head.isAsync, head.isGenerator, none⟩
  if head.isGetter && parameterCount function != 0 then breaks .getterParameters start
  if head.isSetter && parameterCount function != 1 then breaks .setterParameters start
  return function

/-- A function from the word `function` on. -/
def functionLike (r : Rules) (start : Nat) (isAsync : Bool) : Parser Expr := do
  expectKeyword .functionKw
  let isGenerator ← eat? .star
  let name ← match (← token).kind with
    | .word name keyword =>
      if keyword.any (·.isReserved) then pure none
      else
        advance
        pure (some name)
    | _ => pure none
  r.functionRest start ⟨isAsync, isGenerator, name⟩

end Rules

end MarkupCompiler.Grammar
