import MarkupCompiler.Grammar.Declaration
import MarkupCompiler.Grammar.Exchange
import MarkupCompiler.Syntax.Target

/-!
# Statements
-/

namespace MarkupCompiler.Grammar

open Syntax

/-- Whether a statement ends at the cursor. -/
def atEnd? : Parser Bool := do
  let token ← token
  match token.kind with
  | .punct .semicolon | .punct .rbrace | .finish => return true
  | _ => return token.onNewLine

namespace Rules

/-- An expression in parentheses that belongs to a statement. -/
def condition (r : Rules) : Parser Stmt := do
  expect .lparen
  let value ← r.inner
  expect .rparen
  return .operand value

/-- A statement that another one governs. Declarations other than of variables with `var` and of
plain functions have no place there. -/
def single (r : Rules) : Parser Stmt := do
  let first ← token
  let next ← peek
  let isLexical := (isKeyword first .constKw && !isKeyword next .enumKw)
    || isKeyword first .classKw
    || (isKeyword first .functionKw && next.kind == .punct .star)
    || (isKeyword first .asyncKw && isKeyword next .functionKw && !next.onNewLine)
  let isLet ← startsBinding next
  breaksIf (isLexical || (isKeyword first .letKw && isLet)) .declarationPlace
  r.statement

/-- A conditional statement. -/
def ifStatement (r : Rules) : Parser Stmt := do
  let start ← startOffset
  advance
  let test ← r.condition
  let consequent ← r.single
  if ← eatKeyword? .elseKw then
    let alternate ← r.single
    return .compound (← spanFrom start) [test, consequent, alternate]
  else return .compound (← spanFrom start) [test, consequent]

/-- A loop, or another statement with a condition before its body. -/
def whileStatement (r : Rules) : Parser Stmt := do
  let start ← startOffset
  advance
  let test ← r.condition
  let body ← r.single
  return .compound (← spanFrom start) [test, body]

/-- A loop with its condition at the end. -/
def doStatement (r : Rules) : Parser Stmt := do
  let start ← startOffset
  advance
  let body ← r.single
  expectKeyword .whileKw
  let test ← r.condition
  let _ ← eat? .semicolon
  return .compound (← spanFrom start) [body, test]

/-- The head of a loop over the parts of something, from `of` or `in` on. -/
def loopRange (r : Rules) : Parser (List Stmt) := do
  let isOf ← atKeyword? .ofKw
  advance
  let range ← if isOf then r.innerItem else r.inner
  return [.operand range]

/-- An expression in the head of a loop, if there is one before the closing punctuator. -/
def optionalPart (r : Rules) (closing : Punct) : Parser (List Stmt) := do
  if ← at? closing then return [] else return [.operand (← r.inner)]

/-- The head of a counting loop, from its first semicolon on. -/
def loopSteps (r : Rules) : Parser (List Stmt) := do
  expect .semicolon
  let test ← r.optionalPart .semicolon
  expect .semicolon
  let step ← r.optionalPart .rparen
  return test ++ step

/-- Whether an expression is the name `async` alone. -/
def isAsyncName : Expr → Bool
  | .ident _ name => name == "async"
  | _ => false

/-- The head of a loop, in parentheses. -/
def loopHead (r : Rules) (isAwait : Bool) : Parser (List Stmt) := do
  let withoutIn {α : Type} (p : Parser α) : Parser α :=
    bracketed (withReader (fun scope => { scope with inOperator := false }) p)
  let words ← variableWords
  if ← at? .semicolon then r.loopSteps
  else if words != 0 then
    let start ← startOffset
    let ds ← withoutIn (r.declarations words true)
    let isRange ← atOneOf? [.ofKw, .inKw]
    if isRange && (ds.length != 1 || ds.any (·.value.isSome)) then breaks .loopVariable start
    let rest ← if isRange then r.loopRange else r.loopSteps
    return declaratorParts ds ++ rest
  else
    let start ← startOffset
    let first ← withoutIn r.expression
    if ← atOneOf? [.ofKw, .inKw] then
      if !first.isTarget false then failAt .badTarget start
      if !isAwait && (← atKeyword? .ofKw) && isAsyncName first then breaks .loopAsync start
      settleDefaults first.span
      return .operand first :: (← r.loopRange)
    else return .operand first :: (← r.loopSteps)

/-- A `for` loop. -/
def forStatement (r : Rules) : Parser Stmt := do
  let start ← startOffset
  advance
  let isAwait ← eatKeyword? .awaitKw
  expect .lparen
  let head ← r.loopHead isAwait
  expect .rparen
  let body ← r.single
  return .compound (← spanFrom start) (head ++ [body])

/-- Whether the statements of a case go on at the cursor. -/
def inCase? : Parser Bool := do
  let token ← token
  match token.kind with
  | .punct .rbrace | .finish | .word _ (some .caseKw) | .word _ (some .defaultKw) => return false
  | _ => return true

/-- A case of a `switch` statement. -/
def switchCase (r : Rules) : Parser (List Stmt) := do
  let test ← if ← eatKeyword? .defaultKw then pure []
    else
      expectKeyword .caseKw
      pure [.operand (← r.inner)]
  expect .colon
  let body ← many inCase? r.statement
  return test ++ body

/-- A `switch` statement. -/
def switchStatement (r : Rules) : Parser Stmt := do
  let start ← startOffset
  advance
  let value ← r.condition
  expect .lbrace
  let cases ← many (do return !(← at? .rbrace) && (← token).kind != .finish) r.switchCase
  expect .rbrace
  return .compound (← spanFrom start) (value :: cases.flatten)

/-- A `try` statement. -/
def tryStatement (r : Rules) : Parser Stmt := do
  let start ← startOffset
  advance
  let body ← r.block
  let handler ← if ← eatKeyword? .catchKw then
      let param ← if ← eat? .lparen then
          let param ← bracketed r.binding
          bracketed r.annotation
          expect .rparen
          pure [.operand param]
        else pure []
      pure (param ++ [← r.block])
    else pure []
  let finalizer ← if ← eatKeyword? .finallyKw then pure [← r.block] else pure []
  if handler.isEmpty && finalizer.isEmpty then unexpected
  return .compound (← spanFrom start) (body :: handler ++ finalizer)

/-- A `return` statement. -/
def returnStatement (r : Rules) : Parser Stmt := do
  let start ← startOffset
  if !(← read).returns then breaks .returnPlace start
  advance
  let value ← if ← atEnd? then pure none else pure (some (← r.inner))
  semicolon
  return .ret (← spanFrom start) value

/-- A `throw` statement. -/
def throwStatement (r : Rules) : Parser Stmt := do
  let start ← startOffset
  advance
  let value ← r.inner
  semicolon
  return .compound (← spanFrom start) [.operand value]

/-- A jump to a label, or out of the loop around it. -/
def jumpStatement : Parser Stmt := do
  let start ← startOffset
  advance
  if !(← atEnd?) then
    let _ ← identifier
  semicolon
  return .compound (← spanFrom start) []

/-- A statement without parts. -/
def plainStatement : Parser Stmt := do
  let start ← startOffset
  advance
  semicolon
  return .compound (← spanFrom start) []

/-- A semicolon alone. -/
def emptyStatement : Parser Stmt := do
  let start ← startOffset
  advance
  return .compound (← spanFrom start) []

/-- A statement with a label. -/
def labelled (r : Rules) : Parser Stmt := do
  let start ← startOffset
  advance
  advance
  let body ← r.single
  return .compound (← spanFrom start) [body]

/-- An expression as a statement. -/
def expressionStatement (r : Rules) : Parser Stmt := do
  let start ← startOffset
  let value ← r.inner
  semicolon
  return .expr (← spanFrom start) value

/-- A statement that begins with decorators. -/
def decoratedStatement (r : Rules) : Parser Stmt := do
  let start ← startOffset
  let decorators ← r.decorators
  let inner ← if ← atKeyword? .exportKw then r.exportStatement
    else pure (← r.classStatement true).1
  return .compound (← spanFrom start) (decorators.map .operand ++ [inner])

/-- A statement that begins with a name or with an expression. -/
def otherStatement (r : Rules) : Parser Stmt := do
  let first ← token
  let next ← peek
  match ← r.typeDeclaration? with
  | some declaration => return declaration
  | none =>
    let words ← variableWords
    if words != 0 then return (← r.variableStatement words).1
    else if isKeyword first .asyncKw && isKeyword next .functionKw && !next.onNewLine then
      return (← r.functionStatement true).1
    else if (← isIdentifier first) && next.kind == .punct .colon then r.labelled
    else r.expressionStatement

/-- A statement. -/
def anyStatement (r : Rules) : Parser Stmt := do
  match (← token).kind with
  | .punct .lbrace => r.block
  | .punct .semicolon => emptyStatement
  | .punct .atSign => r.decoratedStatement
  | .word _ (some .ifKw) => r.ifStatement
  | .word _ (some .whileKw) | .word _ (some .withKw) => r.whileStatement
  | .word _ (some .doKw) => r.doStatement
  | .word _ (some .forKw) => r.forStatement
  | .word _ (some .switchKw) => r.switchStatement
  | .word _ (some .tryKw) => r.tryStatement
  | .word _ (some .returnKw) => r.returnStatement
  | .word _ (some .throwKw) => r.throwStatement
  | .word _ (some .breakKw) | .word _ (some .continueKw) => jumpStatement
  | .word _ (some .debuggerKw) => plainStatement
  | .word _ (some .functionKw) => return (← r.functionStatement true).1
  | .word _ (some .classKw) => return (← r.classStatement true).1
  | .word _ (some .exportKw) => r.exportStatement
  | .word _ (some .importKw) =>
    match (← peek).kind with
    | .punct .lparen | .punct .dot => r.expressionStatement
    | _ => r.importStatement
  | _ => r.otherStatement

end Rules

end MarkupCompiler.Grammar
