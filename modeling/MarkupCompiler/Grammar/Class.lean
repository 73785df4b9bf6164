import MarkupCompiler.Grammar.Function

/-!
# Classes
-/

namespace MarkupCompiler.Grammar

open Syntax

/-- Whether a token can follow a modifier of a member. -/
def followsModifier (token : Token) : Bool :=
  startsPropertyName token || token.kind == .punct .star

/-- Passes the words before a member that say what kind of member it is, and tells whether it
belongs to the class itself. -/
def memberModifiers : Parser Bool := do
  let types ← types?
  let statics ← many
    (do
      let next ← peek
      if ← atKeyword? .staticKw then return followsModifier next
      else if ← atKeyword? .accessorKw then return followsModifier next && !next.onNewLine
      else if types && (← atOneOf? [.publicKw, .privateKw, .protectedKw, .readonlyKw, .declareKw,
          .abstractKw, .overrideKw]) then
        return followsModifier next && !next.onNewLine
      else return false)
    (do
      let isStatic ← atKeyword? .staticKw
      advance
      return isStatic)
  return statics.any id

/-- The name of a member that stands as a word or string. -/
def memberName? : Expr × Bool → Option String
  | (.ident _ name, false) => some name
  | (.literal _ (.string name), false) => some name
  | _ => none

namespace Rules

/-- The value of a field, in which neither `await` nor `yield` is an operator. -/
def fieldValue (r : Rules) : Parser (List Stmt) := do
  let value ← bracketed
    (withReader (fun scope => { scope with awaits := false, yields := false }) r.initializer)
  return value.toList.map .operand

/-- A block that runs when the class is made. -/
def staticBlock (r : Rules) : Parser (List Stmt) := do
  advance
  let block ← bracketed
    (withReader (fun scope => { scope with awaits := true, yields := false, returns := false })
      r.block)
  return [block]

/-- An index signature, if one stands at the cursor. -/
def indexSignature? (r : Rules) : Parser Bool := do
  let isIndex ← lookAhead do
    if (← types?) && (← eat? .lbracket) then
      match (← token).kind with
      | .word _ _ => return (← peek).kind == .punct .colon
      | _ => return false
    else return false
  if isIndex then
    advance
    advance
    bracketed r.annotation
    expect .rbracket
    bracketed r.annotation
    semicolon
  return isIndex

/-- Notes the names that a member cannot have. -/
def checkName (isStatic isMethod : Bool) (head : MethodHead) (name? : Option String) :
    Parser Unit := do
  let start ← startOffset
  if name? == some "#constructor" then breaks .constructorForm start
  if !isStatic && name? == some "constructor" && (!isMethod || head != {}) then
    breaks .constructorForm start
  if isStatic && name? == some "prototype" then breaks .prototypeMember start

/-- A member after its decorators and modifiers: a method or a field. -/
def plainMember (r : Rules) (isStatic : Bool) : Parser (List Stmt) := do
  if ← r.indexSignature? then return []
  else
    let head ← methodHead
    let (key, isComputed) ← r.propertyName
    if ← types? then
      if !(← eat? .question) then
        let _ ← eat? .bang
    let isMethod := head != {} || (← at? .lparen) || (← at? .lt)
    checkName isStatic isMethod head (memberName? (key, isComputed))
    if isMethod then return [.operand key, .operand (← r.methodRest head)]
    else
      bracketed r.annotation
      let value ← r.fieldValue
      semicolon
      return .operand key :: value

/-- A member of a class: its constituents. -/
def classMember (r : Rules) : Parser (List Stmt) := do
  if ← eat? .semicolon then return []
  else
    let decorators ← r.decorators
    let members ← if (← atKeyword? .staticKw) && (← peek).kind == .punct .lbrace then r.staticBlock
      else
        let isStatic ← memberModifiers
        r.plainMember isStatic
    return decorators.map .operand ++ members

/-- What a class inherits from: the expression after `extends`. -/
def heritage (r : Rules) : Parser (List Stmt) := do
  let parent ← if ← eatKeyword? .extendsKw then
      let parent ← r.leftHandSide
      if ← types? then r.typeArguments?
      pure [.operand parent]
    else pure []
  if (← types?) && (← atKeyword? .implementsKw) then
    advance
    r.type
    let _ ← many (at? .comma) (do advance; r.type)
  return parent

/-- A class from its decorators or the word `class` on. -/
def classFrom (r : Rules) : Parser Expr := do
  let start ← startOffset
  let decorators ← r.decorators
  expectKeyword .classKw
  if (← atIdentifier?) && !(← atKeyword? .implementsKw) then advance
  r.typeParameters
  let parent ← r.heritage
  expect .lbrace
  let members ← many (do return !(← at? .rbrace) && (← token).kind != .finish) r.classMember
  expect .rbrace
  return .classExpr (← spanFrom start) (decorators.map .operand ++ parent ++ members.flatten)

end Rules

end MarkupCompiler.Grammar
