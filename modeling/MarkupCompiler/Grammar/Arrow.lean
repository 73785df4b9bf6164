import MarkupCompiler.Grammar.Function

/-!
# Arrow functions

A parenthesis may open the parameters of an arrow function or an expression, and often only what
comes after its partner tells. A few tokens settle most cases; in the others the parameters are read
on trial.
-/

namespace MarkupCompiler.Grammar

open Syntax

/-- What the tokens at the front tell about an arrow function. -/
inductive Verdict where
  | yes
  | no
  | maybe

/-- Whether the token after the parenthesis at the cursor goes with parameters. -/
def verdictInParens : Parser Verdict := do
  advance
  let second ← token
  let third ← peek
  match second.kind with
  | .punct .rparen =>
    match third.kind with
    | .punct .colon | .punct .arrow | .punct .lbrace => return .yes
    | _ => return .no
  | .punct .lbracket | .punct .lbrace => return .maybe
  | .punct .ellipsis => return if ← isIdentifier third then .yes else .maybe
  | .punct .atSign => return .maybe
  | _ =>
    if !(← isIdentifier second) && !isKeyword second .thisKw then return .no
    else
      match third.kind with
      | .punct .colon => return .yes
      | .punct .question =>
        advance
        match (← peek).kind with
        | .punct .colon | .punct .comma | .punct .eq | .punct .rparen => return .yes
        | _ => return .no
      | .punct .comma | .punct .eq | .punct .rparen => return .maybe
      | _ => return .no

/-- Whether the token after the angle bracket at the cursor goes with type parameters. Where markup
may be written, the bracket opens a tag unless a comma, a default or a bound comes next. -/
def verdictInAngles : Parser Verdict := do
  advance
  let second ← token
  if !(← isIdentifier second) && !isKeyword second .constKw then return .no
  else if (← read).markup then
    let third ← peek
    match third.kind with
    | .punct .comma | .punct .eq => return .yes
    | .word _ (some .extendsKw) =>
      advance
      match (← peek).kind with
      | .punct .eq | .punct .gt | .punct .slash => return .no
      | _ => return .yes
    | _ => return if isKeyword second .constKw && (← isIdentifier third) then .yes else .no
  else return .maybe

/-- Whether an arrow function with parentheses stands at the cursor. -/
def arrowVerdict : Parser Verdict := lookAhead do
  if ← atKeyword? .asyncKw then
    advance
    if (← token).onNewLine then return .no
  if ← at? .lparen then verdictInParens
  else if (← types?) && (← at? .lt) then verdictInAngles
  else return .no

/-- The part of an arrow function before its arrow. -/
structure ArrowHead where
  start : Nat
  isAsync : Bool
  paramSpan : Span
  params : List Expr
  hasReturnType : Bool

namespace Rules

/-- The head of an arrow function with parentheses; the cursor is left on the arrow. -/
def arrowHead (r : Rules) : Parser ArrowHead := do
  let start ← startOffset
  let isAsync ← eatKeyword? .asyncKw
  inArrowHead isAsync do
    r.typeParameters
    let (paramSpan, params) ← r.params
    let hasReturnType ← at? .colon
    r.returnAnnotation
    expectHere .arrow
    return ⟨start, isAsync, paramSpan, params, hasReturnType⟩

/-- The rest of an arrow function from its arrow on. -/
def arrowRest (r : Rules) (head : ArrowHead) : Parser Expr := do
  if (← token).onNewLine then unexpected
  expect .arrow
  inArrowBody head.isAsync do
    let body ← if ← at? .lbrace then inBody r.functionBody else pure (.expr (← r.assignment))
    return .arrow (← spanFrom head.start) head.isAsync head.paramSpan head.params body

/-- An arrow function with parentheses that is read on trial. In the middle of a conditional
expression a result type needs the colon of the conditional after it. -/
def possibleArrow (r : Rules) : Parser (Option Expr) := do
  let cursor ← get
  match ← attempt r.arrowHead with
  | none => return none
  | some head =>
    if head.hasReturnType && (← read).inBranch then
      match ← attempt (r.arrowRest head) with
      | some arrow =>
        if ← at? .colon then return some arrow
        else
          set cursor
          return none
      | none =>
        set cursor
        return none
    else return some (← r.arrowRest head)

/-- An arrow function whose one parameter is a plain name, without parentheses. -/
def simpleArrow? (r : Rules) : Parser (Option Expr) := do
  let first ← token
  let next ← peek
  if (← isIdentifier first) && next.kind == .punct .arrow then
    let param ← identifier
    return some (← r.arrowRest ⟨first.span.start, false, param.span, [param], false⟩)
  else if isKeyword first .asyncKw && !next.onNewLine && (← isIdentifier next) then
    let isArrow ← lookAhead do
      advance
      return (← peek).kind == .punct .arrow
    if isArrow then
      advance
      let param ← identifier
      return some (← r.arrowRest ⟨first.span.start, true, param.span, [param], false⟩)
    else return none
  else return none

/-- An arrow function, if one stands at the cursor. -/
def arrow? (r : Rules) : Parser (Option Expr) := do
  match ← arrowVerdict with
  | .yes => return some (← r.arrowRest (← r.arrowHead))
  | .maybe =>
    match ← r.possibleArrow with
    | some arrow => return some arrow
    | none => r.simpleArrow?
  | .no => r.simpleArrow?

end Rules

end MarkupCompiler.Grammar
