import MarkupCompiler.Grammar.Class
import MarkupCompiler.Syntax.Target

/-!
# Declarations

Variables, functions and classes, and the declarations of types, enumerations and namespaces.
-/

namespace MarkupCompiler.Grammar

open Syntax

/-- Whether a token is a name on the line of the token before it. -/
def isNameOnLine (token : Token) : Parser Bool := return !token.onNewLine && (← isIdentifier token)

/-- Whether variables are declared at the cursor, and the number of words that say so. -/
def variableWords : Parser Nat := do
  let next ← peek
  if ← atOneOf? [.varKw, .constKw] then return 1
  else if ← atKeyword? .letKw then return if ← startsBinding next then 1 else 0
  else if ← atKeyword? .usingKw then
    return if (← isNameOnLine next) && !isKeyword next .ofKw then 1 else 0
  else if (← atKeyword? .awaitKw) && isKeyword next .usingKw && !next.onNewLine then
    lookAhead do
      advance
      return if ← isNameOnLine (← peek) then 2 else 0
  else return 0

/-- A variable or pattern that is declared, and its initializer. -/
structure Declarator where
  target : Expr
  value : Option Expr

/-- The constituents of a declaration of variables. -/
def Declarator.parts (d : Declarator) : List Stmt :=
  .operand d.target :: d.value.toList.map .operand

/-- The constituents of several declarations of variables. -/
def declaratorParts (ds : List Declarator) : List Stmt := ds.flatMap Declarator.parts

namespace Rules

/-- A variable with its initializer. A constant has to have one, and so has a pattern, except at the
head of a loop and where only types are declared. -/
def declarator (r : Rules) (isConst inHead : Bool) : Parser Declarator := do
  let start ← startOffset
  let target ← r.binding
  if ← types? then
    let _ ← eat? .bang
  r.annotation
  let needsValue := match target with
    | .ident _ _ => isConst
    | _ => true
  let value ← r.initializer
  if value.isNone && needsValue && !inHead && !(← read).ambient then breaks .initializer start
  return ⟨target, value⟩

/-- The variables after the words that declare them. -/
def declarators (r : Rules) (isConst inHead : Bool) : Parser (List Declarator) := do
  let first ← r.declarator isConst inHead
  let rest ← many (at? .comma) (do advance; r.declarator isConst inHead)
  return first :: rest

/-- Passes the words that declare variables, and reads the variables. -/
def declarations (r : Rules) (words : Nat) (inHead : Bool) : Parser (List Declarator) := do
  let isConst ← atKeyword? .constKw
  advance
  if words == 2 then advance
  r.declarators isConst inHead

/-- A declaration of variables, and the names that it declares. -/
def variableStatement (r : Rules) (words : Nat) : Parser (Stmt × List String) := do
  let start ← startOffset
  let ds ← r.declarations words false
  semicolon
  return (.compound (← spanFrom start) (declaratorParts ds), ds.flatMap (·.target.boundNames))

/-- The name that the cursor stands on. -/
def nameHere? : Parser (Option String) := do
  let token ← token
  match token.kind with
  | .word name _ => return if ← isIdentifier token then some name else none
  | _ => return none

/-- A declaration of a function, and its name. Without a name it can only be the default export. -/
def functionStatement (r : Rules) (needsName : Bool) : Parser (Stmt × Option String) := do
  let start ← startOffset
  let isAsync ← eatKeyword? .asyncKw
  if needsName then
    lookAhead do
      advance
      let _ ← eat? .star
      match (← token).kind with
      | .word _ keyword => if keyword.any (·.isReserved) then unexpected
      | _ => unexpected
  let function ← r.functionLike start isAsync
  let name := match function with
    | .function _ kind _ _ _ => kind.name
    | _ => none
  return (.compound (← spanFrom start) [.operand function], name)

/-- A declaration of a class, and its name. Without a name it can only be the default export. -/
def classStatement (r : Rules) (needsName : Bool) : Parser (Stmt × Option String) := do
  let start ← startOffset
  let _ ← eatKeyword? .abstractKw
  let name ← lookAhead do
    let _ ← r.decorators
    let _ ← eatKeyword? .abstractKw
    expectKeyword .classKw
    let name ← nameHere?
    if needsName && name.isNone then unexpected
    return name
  let body ← r.classLike
  return (.compound (← spanFrom start) [.operand body], name)

/-- An interface. -/
def interfaceStatement (r : Rules) : Parser Stmt := do
  let start ← startOffset
  advance
  let _ ← identifier
  r.typeParameters
  if ← eatKeyword? .extendsKw then
    r.type
    let _ ← many (at? .comma) (do advance; r.type)
  r.objectType
  return .compound (← spanFrom start) []

/-- A name for a type. -/
def aliasStatement (r : Rules) : Parser Stmt := do
  let start ← startOffset
  advance
  let _ ← identifier
  r.typeParameters
  expect .eq
  r.type
  semicolon
  return .compound (← spanFrom start) []

/-- A member of an enumeration. -/
def enumMember (r : Rules) : Parser (List Stmt) := do
  let (key, _) ← r.propertyName
  let value ← bracketed r.initializer
  return .operand key :: value.toList.map .operand

/-- An enumeration. -/
def enumStatement (r : Rules) : Parser Stmt := do
  let start ← startOffset
  let _ ← eatKeyword? .constKw
  expectKeyword .enumKw
  let _ ← identifier
  expect .lbrace
  let members ← listUntil .rbrace r.enumMember
  expect .rbrace
  return .compound (← spanFrom start) members.flatten

/-- A namespace, or the declaration of a module. -/
def namespaceStatement (r : Rules) : Parser Stmt := do
  let start ← startOffset
  if !(← eatKeyword? .globalKw) then
    advance
    match (← token).kind with
    | .string _ => advance
    | _ =>
      let _ ← anyWord
      let _ ← many (at? .dot) (do advance; let _ ← anyWord)
  if ← at? .lbrace then
    let body ← r.block
    return .compound (← spanFrom start) [body]
  else
    semicolon
    return .compound (← spanFrom start) []

/-- A declaration that says only what type something has. -/
def ambientStatement (r : Rules) : Parser Stmt := do
  let start ← startOffset
  advance
  let inner ← withReader (fun scope => { scope with ambient := true }) r.statement
  return .compound (← spanFrom start) [inner]

/-- A declaration that exists only where types may be written, if one stands at the cursor. -/
def typeDeclaration? (r : Rules) : Parser (Option Stmt) := do
  let next ← peek
  if !(← types?) then return none
  else if (← atKeyword? .interfaceKw) && (← isNameOnLine next) then
    return some (← r.interfaceStatement)
  else if (← atKeyword? .typeKw) && (← isNameOnLine next) then return some (← r.aliasStatement)
  else if ← atKeyword? .enumKw then return some (← r.enumStatement)
  else if (← atKeyword? .constKw) && isKeyword next .enumKw then return some (← r.enumStatement)
  else if (← atKeyword? .abstractKw) && isKeyword next .classKw && !next.onNewLine then
    return some (← r.classStatement true).1
  else if (← atKeyword? .namespaceKw) && (← isNameOnLine next) then
    return some (← r.namespaceStatement)
  else if ← atKeyword? .moduleKw then
    let isString := match next.kind with
      | .string _ => !next.onNewLine
      | _ => false
    if isString || (← isNameOnLine next) then return some (← r.namespaceStatement) else return none
  else if (← atKeyword? .globalKw) && next.kind == .punct .lbrace && !next.onNewLine then
    return some (← r.namespaceStatement)
  else if ← atKeyword? .declareKw then
    match next.kind with
    | .word _ (some keyword) =>
      let declares := [Keyword.varKw, .letKw, .constKw, .functionKw, .classKw, .abstractKw,
        .interfaceKw, .typeKw, .enumKw, .namespaceKw, .moduleKw, .globalKw, .asyncKw, .importKw,
        .usingKw]
      if declares.contains keyword && !next.onNewLine then return some (← r.ambientStatement)
      else return none
    | _ => return none
  else return none

end Rules

end MarkupCompiler.Grammar
