import MarkupCompiler.Grammar.Arrow
import MarkupCompiler.Grammar.Literal
import MarkupCompiler.Syntax.Operator
import MarkupCompiler.Syntax.Target

/-!
# Expressions
-/

namespace MarkupCompiler.Grammar

open Syntax

/-- The binary operator at the cursor, if there is one. -/
def binaryOp? : Parser (Option BinaryOp) := do
  widenGreater
  match (← token).kind with
  | .punct p => return BinaryOp.ofPunct? p
  | .word _ (some .instanceofKw) => return some .instanceOf
  | .word _ (some .inKw) => return if (← read).inOperator then some .isIn else none
  | _ => return none

/-- Whether an expression can begin with a token. -/
def startsExpression (token : Token) : Bool :=
  match token.kind with
  | .word _ none | .privateName _ | .number _ | .bigint | .string _ | .fault _ => true
  | .word _ (some keyword) =>
    !keyword.isReserved
      || [Keyword.thisKw, .superKw, .nullKw, .trueKw, .falseKw, .functionKw, .classKw, .newKw,
        .importKw, .deleteKw, .typeofKw, .voidKw].contains keyword
  | .punct p =>
    [Punct.lparen, .lbracket, .lbrace, .slash, .slashEq, .backquote, .plus, .minus, .tilde, .bang,
      .plusPlus, .minusMinus, .lt, .atSign].contains p
  | .finish => false

/-- Whether the cursor stands where type arguments may end, so that the angle brackets before it are
not comparisons. -/
def followsTypeArguments : Parser Bool := do
  let token ← token
  match token.kind with
  | .punct .lparen | .punct .backquote => return true
  | .punct .lt | .punct .gt | .punct .plus | .punct .minus => return false
  | _ => return token.onNewLine || (← binaryOp?).isSome || !startsExpression token

/-- An expression as a whole optional chain. Type arguments at its end stay outside. -/
def closeChain : Expr → Expr
  | .typed span (.instantiation arguments) inner =>
    .typed span (.instantiation arguments) (.chain inner.span inner)
  | e => .chain e.span e

namespace Rules

/-- `import.meta`, or the import of a module as an expression. -/
def importExpr (r : Rules) : Parser Expr := do
  let start ← startOffset
  advance
  let hasPhase ← if ← eat? .dot then
      if ← eatKeyword? .metaKw then return .metaProperty (← spanFrom start) "import" "meta"
      else if ← atOneOf? [.sourceKw, .deferKw] then
        advance
        pure true
      else unexpected
    else pure false
  expect .lparen
  let source ← r.innerItem
  let options ← if (← eat? .comma) && !(← at? .rparen) then
      let options ← r.innerItem
      let _ ← eat? .comma
      pure (some options)
    else pure none
  expect .rparen
  return .importCall (← spanFrom start) hasPhase source options

/-- A construction with `new`, or `new.target`. -/
def construct (r : Rules) : Parser Expr := do
  let start ← startOffset
  advance
  if ← eat? .dot then
    expectKeyword .targetKw
    return .metaProperty (← spanFrom start) "new" "target"
  else
    let (callee, types) := match ← r.callee with
      | .typed _ (.instantiation types) inner => (inner, some types)
      | callee => (callee, none)
    let arguments ← if ← at? .lparen then r.arguments else pure []
    if ← at? .questionDot then unexpected
    return .construct (← spanFrom start) callee types arguments

/-- Markup as an expression. -/
def markupExpr (r : Rules) : Parser Expr := do
  let m ← r.markup
  advance
  return .markup m

/-- An expression in parentheses. -/
def parenthesized (r : Rules) : Parser Expr := do
  let start ← startOffset
  expect .lparen
  let inner ← r.inner
  expect .rparen
  return .paren (← spanFrom start) inner

/-- An operand that is one token, or stands in brackets. -/
def primary (r : Rules) : Parser Expr := do
  let token ← token
  let literal (value : Literal) : Parser Expr := do
    advance
    return .literal token.span value
  match token.kind with
  | .number value => literal (.number value)
  | .bigint => literal .bigint
  | .string value => literal (.string value)
  | .word _ none => identifier
  | .word _ (some keyword) =>
    match keyword with
    | .nullKw => literal .null
    | .trueKw => literal (.boolean true)
    | .falseKw => literal (.boolean false)
    | .thisKw =>
      advance
      return .thisRef token.span
    | .superKw =>
      advance
      let isUsed := (← at? .dot) || (← at? .lparen) || (← at? .lbracket)
      if !isUsed then breaks .superPlace token.span.start
      return .superRef token.span
    | .functionKw => r.functionLike token.span.start false
    | .classKw => r.classLike
    | .newKw => r.construct
    | .importKw => r.importExpr
    | .asyncKw =>
      let next ← peek
      if isKeyword next .functionKw && !next.onNewLine then
        advance
        r.functionLike token.span.start true
      else identifier
    | _ => identifier
  | .punct .lparen => r.parenthesized
  | .punct .lbracket => r.arrayLiteral
  | .punct .lbrace => r.objectLiteral
  | .punct .backquote => r.template
  | .punct .slash | .punct .slashEq => regexp
  | .punct .atSign => r.classLike
  | .punct .lt => if (← read).markup then r.markupExpr else unexpected
  | _ => unexpected

/-- Type arguments in an expression. They are refused where the brackets may be comparisons. -/
def expressionTypeArguments (r : Rules) : Parser Span := do
  narrowLess
  let start ← startOffset
  expect .lt
  if ← at? .gt then unexpected
  let _ ← listUntil .gt (bracketed r.type)
  let cursor ← get
  if scanPunct? [.ge] cursor.here == some .ge then unexpected
  expect .gt
  let span ← spanFrom start
  if ← followsTypeArguments then return span else unexpected

/-- The member of an object that stands after a dot. -/
def memberAfterDot (start : Nat) (object : Expr) (isOptional : Bool) : Parser Expr := do
  match (← token).kind with
  | .word name _ =>
    advance
    return .member (← spanFrom start) object (.plain name) isOptional
  | .privateName name =>
    advance
    return .member (← spanFrom start) object (.hidden name) isOptional
  | _ => unexpected

/-- The member of an object that an expression in brackets names. -/
def indexed (r : Rules) (start : Nat) (object : Expr) (isOptional : Bool) : Parser Expr := do
  expect .lbracket
  let key ← r.inner
  expect .rbracket
  return .index (← spanFrom start) object key isOptional

/-- A call of an expression, which takes over the type arguments at its end. -/
def called (r : Rules) (start : Nat) (callee : Expr) : Parser Expr := do
  let arguments ← r.arguments
  let span ← spanFrom start
  match callee with
  | .typed _ (.instantiation types) inner => return .call span inner (some types) arguments false
  | _ => return .call span callee none arguments false

/-- A template literal with a tag, which takes over the type arguments at its end. -/
def taggedTemplate (r : Rules) (start : Nat) (tag : Expr) : Parser Expr := do
  let (quasis, values) ← r.templateParts
  let span ← spanFrom start
  match tag with
  | .typed _ (.instantiation types) inner => return .tagged span inner (some types) quasis values
  | _ => return .tagged span tag none quasis values

/-- What stands after `?.`. -/
def optionalLink (r : Rules) (start : Nat) (object : Expr) : Parser Expr := do
  match (← token).kind with
  | .punct .lbracket => r.indexed start object true
  | .punct .lparen =>
    let arguments ← r.arguments
    return .call (← spanFrom start) object none arguments true
  | .punct .lt | .punct .shl =>
    if ← types? then
      let types ← r.expressionTypeArguments
      let arguments ← r.arguments
      return .call (← spanFrom start) object (some types) arguments true
    else unexpected
  | _ => memberAfterDot start object true

/-- The members after an operand and, if `calls`, the calls and optional links. -/
def links (r : Rules) (calls : Bool) (start : Nat) (operand : Expr) : Parser Expr :=
  loop ((operand, false) : Expr × Bool) fun (e, inChain) => do
    let token ← token
    let done : Parser ((Expr × Bool) ⊕ Expr) := return .inr (if inChain then closeChain e else e)
    match token.kind with
    | .punct .dot =>
      advance
      return .inl (← memberAfterDot start e false, inChain)
    | .punct .questionDot =>
      if calls then
        advance
        return .inl (← r.optionalLink start e, true)
      else done
    | .punct .lbracket =>
      if (← read).inDecorator then done else return .inl (← r.indexed start e false, inChain)
    | .punct .lparen =>
      if calls then return .inl (← r.called start e, inChain) else done
    | .punct .backquote =>
      if inChain then unexpected else return .inl (← r.taggedTemplate start e, inChain)
    | .punct .bang =>
      if (← types?) && !token.onNewLine then
        advance
        return .inl (.typed (← spanFrom start) .nonNull e, inChain)
      else done
    | .punct .lt | .punct .shl =>
      if ← types? then
        match ← attempt r.expressionTypeArguments with
        | some types => return .inl (.typed (← spanFrom start) (.instantiation types) e, inChain)
        | none => done
      else done
    | _ => done

/-- An operand with its members and calls. -/
def memberOrCall (r : Rules) : Parser Expr := do
  let start ← startOffset
  let operand ← r.primary
  r.links true start operand

/-- An operand with its members, but without calls. -/
def constructed (r : Rules) : Parser Expr := do
  let start ← startOffset
  let operand ← r.primary
  r.links false start operand

/-- Whether markup stands at the cursor. -/
def atMarkup? : Parser Bool := do
  if (← read).markup && (← at? .lt) then
    match (← peek).kind with
    | .word _ _ | .punct .gt => return true
    | _ => return false
  else return false

/-- An operand with its members and calls, and perhaps an update operator after it; or markup. -/
def updated (r : Rules) : Parser Expr := do
  if ← atMarkup? then r.markupExpr
  else
    let start ← startOffset
    let operand ← r.leftHandSide
    let token ← token
    match UpdateOp.ofToken? token.kind with
    | some op =>
      if token.onNewLine then return operand
      else
        if !operand.isPlace then failAt .badTarget start
        advance
        return .update (← spanFrom start) op false operand.unparenthesized
    | none => return operand

/-- Whether `await` at the cursor is an operator. Where it has no place as one, it is still taken
for one if an operand follows. -/
def atAwait? : Parser Bool := do
  if ← atKeyword? .awaitKw then
    if (← read).awaits then return true
    else
      let next ← peek
      match next.kind with
      | .word _ (some .inKw) | .word _ (some .ofKw) | .word _ (some .instanceofKw) => return false
      | .word _ _ | .number _ | .bigint | .string _ | .privateName _ => return !next.onNewLine
      | _ => return false
  else return false

/-- An operand with the operators before it. -/
def prefixed (r : Rules) : Parser Expr := do
  let first ← token
  let start := first.span.start
  match UnaryOp.ofToken? first.kind, UpdateOp.ofToken? first.kind with
  | some op, _ =>
    advance
    let operand ← r.unary
    if ← at? .starStar then unexpected
    return .unary (← spanFrom start) op operand
  | none, some op =>
    advance
    let inner ← startOffset
    let operand ← r.unary
    if !operand.isPlace then failAt .badTarget inner
    return .update (← spanFrom start) op true operand.unparenthesized
  | none, none =>
    if ← atAwait? then
      if !(← read).awaits then breaks .awaitPlace start
      advance
      let operand ← r.unary
      if ← at? .starStar then unexpected
      return .await (← spanFrom start) operand
    else if (← at? .lt) && (← types?) && !(← read).markup then
      advance
      let type ← spanOf (bracketed r.type)
      expect .gt
      let operand ← r.unary
      return .typed (← spanFrom start) (.assertion type) operand
    else r.updated

/-- A type after `as` or `satisfies`. -/
def typeAfter (r : Rules) (start : Nat) (mark : Span → TypeMark) (e : Expr) : Parser Expr := do
  advance
  let type ← spanOf (bracketed r.type)
  return .typed (← spanFrom start) (mark type) e

/-- The operators after an operand that bind tighter than a level, with their right operands. -/
def operations (r : Rules) (level start : Nat) (operand : Expr) : Parser Expr :=
  loop operand fun left => do
    match ← binaryOp? with
    | some op =>
      if level < op.level || (op == .pow && level == op.level) then
        advance
        let right ← r.binary op.level
        if op == .coalesce && (left.isLogical || right.isLogical) then breaks .mixedCoalesce start
        return .inl (.binary (← spanFrom start) op left right)
      else return .inr left
    | none =>
      let token ← token
      if (← types?) && !token.onNewLine && level < BinaryOp.lt.level then
        if isKeyword token .asKw then return .inl (← r.typeAfter start .asType left)
        else if isKeyword token .satisfiesKw then
          return .inl (← r.typeAfter start .satisfies left)
        else return .inr left
      else return .inr left

/-- An operand and the operators after it that bind tighter than a level. -/
def operation (r : Rules) (level : Nat) : Parser Expr := do
  let first ← token
  let start := first.span.start
  match first.kind with
  | .privateName name =>
    advance
    if !(← atKeyword? .inKw) || !(← read).inOperator || BinaryOp.isIn.level ≤ level then unexpected
    advance
    let right ← r.binary BinaryOp.isIn.level
    r.operations level start (.hasPrivate (← spanFrom start) name right)
  | _ =>
    let operand ← r.unary
    r.operations level start operand

/-- A `yield` and what it yields. -/
def yielded (r : Rules) : Parser Expr := do
  let start ← startOffset
  advance
  let token ← token
  if !token.onNewLine && token.kind == .punct .star then
    advance
    let operand ← r.assignment
    return .yield (← spanFrom start) true (some operand)
  else if !token.onNewLine && startsExpression token then
    let operand ← r.assignment
    return .yield (← spanFrom start) false (some operand)
  else return .yield (← spanFrom start) false none

/-- The branches of a conditional expression after its test. -/
def branches (r : Rules) (start : Nat) (test : Expr) : Parser Expr := do
  expect .question
  let consequent ←
    withReader (fun scope => { scope with inOperator := true, inBranch := true }) r.assignment
  expect .colon
  let alternate ← r.assignment
  return .conditional (← spanFrom start) test consequent alternate

/-- Whether an operator can assign to an expression: the plain one also takes patterns. -/
def canAssign (op : AssignOp) (target : Expr) : Bool :=
  if op == .plain then target.isTarget false else target.isPlace

/-- An expression without commas. -/
def assigned (r : Rules) : Parser Expr := do
  let start ← startOffset
  if (← atKeyword? .yieldKw) && (← read).yields then r.yielded
  else
    match ← r.arrow? with
    | some arrow => return arrow
    | none =>
      let left ← r.binary 0
      match (← token).kind with
      | .punct .question => r.branches start left
      | .punct p =>
        match AssignOp.ofPunct? p with
        | some op =>
          if !canAssign op left then failAt .badTarget start
          settleDefaults left.span
          advance
          let value ← r.assignment
          return .assign (← spanFrom start) op left.unparenthesized value
        | none => return left
      | _ => return left

end Rules

end MarkupCompiler.Grammar
