import MarkupCompiler.Grammar.Rules

/-!
# Types

Types are read so that the reader knows where they end. Nothing of them is kept but their span.
-/

namespace MarkupCompiler.Grammar

open Syntax

/-- Runs a parser and gives the span of what it read. -/
def spanOf (p : Parser Unit) : Parser Span := do
  let start ← startOffset
  p
  spanFrom start

namespace Rules

/-- Type arguments in angle brackets. -/
def typeArguments (r : Rules) : Parser Span := do
  narrowLess
  let start ← startOffset
  expect .lt
  if ← at? .gt then unexpected
  let _ ← listUntil .gt (bracketed r.type)
  expect .gt
  spanFrom start

/-- Type arguments after a name, if there are any. -/
def typeArguments? (r : Rules) : Parser Unit := do
  let token ← token
  if (token.kind == .punct .lt || token.kind == .punct .shl) && !token.onNewLine then
    let _ ← r.typeArguments

/-- A parameter of a generic declaration. -/
def typeParameter (r : Rules) : Parser Unit := do
  let _ ← many
    (do return (← atOneOf? [.constKw, .inKw, .outKw]) && (match (← peek).kind with
      | .word _ (some .extendsKw) => false
      | .word _ _ => true
      | _ => false))
    advance
  let _ ← identifier
  if ← eatKeyword? .extendsKw then r.type
  if ← eat? .eq then r.type

/-- The parameters of a generic declaration, if types may be written and there are any. -/
def typeParameters (r : Rules) : Parser Unit := do
  if (← types?) && (← at? .lt) then
    advance
    let _ ← listUntil .gt (bracketed r.typeParameter)
    expect .gt

/-- What a function returns: a type, or what it tells about one of its arguments. -/
def returnType (r : Rules) : Parser Unit := do
  let isSubject (token : Token) : Parser Bool :=
    return (← isIdentifier token) || isKeyword token .thisKw
  if ← atKeyword? .assertsKw then
    let next ← peek
    if (← isSubject next) && !next.onNewLine && !isKeyword next .isKw then advance
  let next ← peek
  if (← isSubject (← token)) && isKeyword next .isKw && !next.onNewLine then
    advance
    advance
    r.type
  else r.type

/-- A colon and the type that a function returns, if types may be written and there is a colon. -/
def returnAnnotation (r : Rules) : Parser Unit := do
  if (← types?) && (← at? .colon) then
    advance
    bracketed r.returnType

/-- The name or pattern at the front of a parameter. -/
def skipParameterStart (r : Rules) : Parser Bool := do
  if (← atIdentifier?) || (← atKeyword? .thisKw) then
    advance
    return true
  else if (← at? .lbracket) || (← at? .lbrace) then
    return (← attempt r.binding).isSome
  else return false

/-- Whether the parenthesis at the cursor opens the parameters of a function type. -/
def startsParameters (r : Rules) : Parser Bool := lookAhead do
  advance
  if (← at? .rparen) || (← at? .ellipsis) then return true
  else if ← r.skipParameterStart then
    if (← at? .colon) || (← at? .comma) || (← at? .question) || (← at? .eq) then return true
    else if ← eat? .rparen then at? .arrow
    else return false
  else return false

/-- Whether a function type stands at the cursor. -/
def startsFunctionType (r : Rules) : Parser Bool := do
  if (← at? .lt) || (← atKeyword? .newKw) then return true
  else if ← atKeyword? .abstractKw then return isKeyword (← peek) .newKw
  else if ← at? .lparen then r.startsParameters
  else return false

/-- The type of a function or constructor. -/
def functionType (r : Rules) : Parser Unit := do
  let _ ← eatKeyword? .abstractKw
  let _ ← eatKeyword? .newKw
  r.typeParameters
  let _ ← r.params
  expect .arrow
  r.returnType

/-- A dotted name with type arguments. -/
def namedType (r : Rules) : Parser Unit := do
  let _ ← anyWord
  let _ ← many (at? .dot) (do advance; let _ ← anyWord)
  r.typeArguments?

/-- A type that is taken from another module. -/
def importType (r : Rules) : Parser Unit := do
  advance
  expect .lparen
  bracketed r.type
  if ← eat? .comma then
    let _ ← r.innerItem
    let _ ← eat? .comma
  expect .rparen
  let _ ← many (at? .dot) (do advance; let _ ← anyWord)
  r.typeArguments?

/-- An element of a tuple type. -/
def tupleElement (r : Rules) : Parser Unit := do
  let _ ← eat? .ellipsis
  let isNamed ← lookAhead do
    match (← token).kind with
    | .word _ _ =>
      advance
      let _ ← eat? .question
      at? .colon
    | _ => return false
  if isNamed then
    advance
    let _ ← eat? .question
    advance
  r.type
  let _ ← eat? .question

/-- Whether the brace at the cursor opens a mapped type. -/
def startsMappedType : Parser Bool := lookAhead do
  advance
  if (← at? .plus) || (← at? .minus) then return isKeyword (← peek) .readonlyKw
  let _ ← eatKeyword? .readonlyKw
  if ← eat? .lbracket then
    match (← token).kind with
    | .word _ _ => return isKeyword (← peek) .inKw
    | _ => return false
  else return false

/-- A sign that adds or takes away a modifier. -/
def modifierSign : Parser Unit := do
  if !(← eat? .plus) then
    let _ ← eat? .minus

/-- A mapped type. -/
def mappedType (r : Rules) : Parser Unit := do
  expect .lbrace
  modifierSign
  let _ ← eatKeyword? .readonlyKw
  expect .lbracket
  let _ ← anyWord
  expectKeyword .inKw
  bracketed r.type
  if ← eatKeyword? .asKw then bracketed r.type
  expect .rbracket
  modifierSign
  let _ ← eat? .question
  bracketed r.annotation
  if !(← eat? .semicolon) then
    let _ ← eat? .comma
  expect .rbrace

/-- The parameters and result of a function in an object type. -/
def signature (r : Rules) : Parser Unit := do
  r.typeParameters
  let _ ← r.params
  r.returnAnnotation

/-- A member of an object type. -/
def typeMember (r : Rules) : Parser Unit := do
  let next ← peek
  if (← at? .lparen) || (← at? .lt) then r.signature
  else if (← atKeyword? .newKw) && (next.kind == .punct .lparen || next.kind == .punct .lt) then
    advance
    r.signature
  else
    if (← atOneOf? [.readonlyKw, .getKw, .setKw]) && startsPropertyName next then advance
    let isIndex ← lookAhead do
      if ← eat? .lbracket then
        match (← token).kind with
        | .word _ _ => return (← peek).kind == .punct .colon
        | _ => return false
      else return false
    if isIndex then
      advance
      advance
      r.annotation
      expect .rbracket
      r.annotation
    else
      let _ ← r.propertyName
      let _ ← eat? .question
      if (← at? .lparen) || (← at? .lt) then r.signature else r.annotation

/-- The members of an object type or interface, in braces. -/
def objectType (r : Rules) : Parser Unit := do
  expect .lbrace
  let _ ← many (do return !(← at? .rbrace) && (← token).kind != .finish) do
    bracketed r.typeMember
    if !(← eat? .comma) then semicolon
  expect .rbrace

/-- A template literal type. -/
def templateType (r : Rules) : Parser Unit := do
  let start ← startOffset
  let cursor ← get
  loop ((start + 1, cursor.after) : Nat × List Char) fun (offset, text) => do
    match scanTemplate 0 text with
    | none => failAt (.lexical .unterminatedString) start
    | some scan =>
      if scan.isLast then
        modify (·.moveTo (offset + scan.bytes + 1) scan.rest)
        return .inr ()
      else
        modify (·.moveTo (offset + scan.bytes + 2) scan.rest)
        bracketed r.type
        expectHere .rbrace
        let cursor ← get
        return .inl (cursor.token.span.stop, cursor.after)

/-- A type that is not built from others by an operator. -/
def plainType (r : Rules) : Parser Unit := do
  match (← token).kind with
  | .word _ (some .typeofKw) =>
    advance
    if ← atKeyword? .importKw then r.importType else r.namedType
  | .word _ (some .importKw) => r.importType
  | .word _ (some .thisKw) | .word _ (some .voidKw) | .word _ (some .nullKw)
  | .word _ (some .trueKw) | .word _ (some .falseKw) | .word _ (some .constKw) => advance
  | .word _ none => r.namedType
  | .word _ (some keyword) => if keyword.isReserved then unexpected else r.namedType
  | .string _ | .number _ | .bigint => advance
  | .punct .minus =>
    advance
    match (← token).kind with
    | .number _ | .bigint => advance
    | _ => unexpected
  | .punct .lparen =>
    advance
    bracketed r.type
    expect .rparen
  | .punct .lbracket =>
    advance
    let _ ← listUntil .rbracket (bracketed r.tupleElement)
    expect .rbracket
  | .punct .lbrace => if ← startsMappedType then r.mappedType else r.objectType
  | .punct .backquote => r.templateType
  | _ => unexpected

/-- A type with the brackets after it. -/
def postfixType (r : Rules) : Parser Unit := do
  r.plainType
  let _ ← many (do return (← at? .lbracket) && !(← token).onNewLine) do
    advance
    if !(← at? .rbracket) then bracketed r.type
    expect .rbracket

/-- Whether a token can begin the operand of an operator on types. -/
def startsOperand (token : Token) : Bool :=
  match token.kind with
  | .word _ (some .extendsKw) | .word _ (some .isKw) => false
  | .word _ _ | .string _ | .number _ | .bigint => true
  | .punct p => [Punct.lparen, .lbracket, .lbrace, .backquote, .minus].contains p
  | _ => false

/-- A type with the operators before it. -/
def operatorType (r : Rules) : Parser Unit := do
  let _ ← many
    (do return (← atOneOf? [.keyofKw, .uniqueKw, .readonlyKw]) && startsOperand (← peek)) advance
  if (← atKeyword? .inferKw) && startsOperand (← peek) then
    advance
    let _ ← anyWord
    if ← atKeyword? .extendsKw then
      let _ ← attempt do
        advance
        withReader (fun scope => { scope with conditionalTypes := false }) r.type
        if (← read).conditionalTypes && (← at? .question) then unexpected
  else r.postfixType

/-- Types joined by `&`. -/
def intersectionType (r : Rules) : Parser Unit := do
  let _ ← eat? .amp
  r.operatorType
  let _ ← many (at? .amp) (do advance; r.operatorType)

/-- Types joined by `|`. -/
def unionType (r : Rules) : Parser Unit := do
  let _ ← eat? .bar
  r.intersectionType
  let _ ← many (at? .bar) (do advance; r.intersectionType)

/-- A type. -/
def anyType (r : Rules) : Parser Unit := do
  if ← r.startsFunctionType then r.functionType
  else
    r.unionType
    let token ← token
    if (← read).conditionalTypes && isKeyword token .extendsKw && !token.onNewLine then
      advance
      withReader (fun scope => { scope with conditionalTypes := false }) r.type
      expect .question
      r.type
      expect .colon
      r.type

end Rules

end MarkupCompiler.Grammar
