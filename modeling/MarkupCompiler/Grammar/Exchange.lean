import MarkupCompiler.Grammar.Declaration
import MarkupCompiler.Grammar.Literal

/-!
# Imports and exports
-/

namespace MarkupCompiler.Grammar

open Syntax

/-- Passes a string literal. -/
def stringToken : Parser Unit := do
  match (← token).kind with
  | .string _ => advance
  | _ => unexpected

/-- A name that modules exchange: any word, or a string. -/
def exchangedName : Parser String := do
  match (← token).kind with
  | .word name _ | .string name =>
    advance
    return name
  | _ => unexpected

/-- Keeps a name that is exported. -/
def exportName (name : String) (offset : Nat) : Parser Unit :=
  modify fun cursor => { cursor with exports := (name, offset) :: cursor.exports }

/-- Whether the word `type` at the cursor marks an entry of an import or export. In `type as x` the
thing is called `type`; in `type as` and `type as as x` it is `as`. -/
def marksType : Parser Bool := lookAhead do
  if (← types?) && (← atKeyword? .typeKw) then
    advance
    let isAs ← atKeyword? .asKw
    match (← token).kind with
    | .word _ _ | .string _ =>
      if isAs then
        advance
        match (← token).kind, (← peek).kind with
        | .word _ (some .asKw), .word _ _ | .word _ (some .asKw), .string _ => return true
        | .word _ _, _ | .string _, _ => return false
        | _, _ => return true
      else return true
    | _ => return false
  else return false

/-- An entry in the braces of an import. The name that it gets here is the name of a variable. -/
def importEntry : Parser Unit := do
  if ← marksType then advance
  let isName ← atIdentifier?
  let next ← peek
  if isKeyword next .asKw then
    let _ ← exchangedName
    advance
    let _ ← identifier
  else if isName then advance
  else unexpected

/-- An entry in the braces of an export: its local name is no variable unless this holds. -/
def exportEntry : Parser Bool := do
  if ← marksType then advance
  let start ← startOffset
  let isName ← atIdentifier?
  let name ← exchangedName
  if ← eatKeyword? .asKw then
    let start ← startOffset
    exportName (← exchangedName) start
  else exportName name start
  return isName

namespace Rules

/-- The attributes of an import, if there are any. -/
def importAttributes (r : Rules) : Parser Unit := do
  let token ← token
  if isKeyword token .withKw || (isKeyword token .assertKw && !token.onNewLine) then
    advance
    let _ ← r.objectLiteral

/-- The module that an import or export is taken from. -/
def fromModule (r : Rules) : Parser Unit := do
  expectKeyword .fromKw
  stringToken
  r.importAttributes
  semicolon

/-- A word that marks a whole import, if one stands at the cursor. -/
def importMark : Parser Unit := do
  let isMark ← if ← types? then atOneOf? [.typeKw, .deferKw, .sourceKw]
    else atOneOf? [.deferKw, .sourceKw]
  if isMark then
    match (← peek).kind with
    | .punct .lbrace | .punct .star => advance
    | .word _ (some .fromKw) =>
      -- `from` after the mark is a name only if another `from` comes after it.
      let isName ← lookAhead do
        advance
        return isKeyword (← peek) .fromKw
      if isName then advance
    | .word _ _ => advance
    | _ => return ()

/-- An import that gives a name to a part of a namespace or to a required module. -/
def importAlias (r : Rules) : Parser Unit := do
  advance
  if (← atKeyword? .requireKw) && (← peek).kind == .punct .lparen then
    advance
    expect .lparen
    stringToken
    expect .rparen
  else r.namedType
  semicolon

/-- The names that an import brings in beside the default. -/
def importedNames : Parser Unit := do
  if ← eat? .star then
    expectKeyword .asKw
    let _ ← identifier
  else
    expect .lbrace
    let _ ← listUntil .rbrace importEntry
    expect .rbrace

/-- The names that an import brings in. -/
def importClause (r : Rules) : Parser Unit := do
  if ← atIdentifier? then
    advance
    if (← types?) && (← at? .eq) then r.importAlias
    else
      if ← eat? .comma then importedNames
      r.fromModule
  else
    importedNames
    r.fromModule

/-- An import. -/
def importStatement (r : Rules) : Parser Stmt := do
  let start ← startOffset
  advance
  match (← token).kind with
  | .string _ =>
    advance
    r.importAttributes
    semicolon
  | _ =>
    importMark
    r.importClause
  return .compound (← spanFrom start) []

/-- Whether a function is declared at the cursor. -/
def atFunction? : Parser Bool := do
  let next ← peek
  if ← atKeyword? .functionKw then return true
  else return (← atKeyword? .asyncKw) && isKeyword next .functionKw && !next.onNewLine

/-- What is exported by default. -/
def defaultExport (r : Rules) : Parser (List Stmt) := do
  let next ← peek
  let types ← types?
  if ← atFunction? then return [(← r.functionStatement false).1]
  else if (← atKeyword? .classKw) || (← at? .atSign) then return [(← r.classStatement false).1]
  else if types && (← atKeyword? .abstractKw) && isKeyword next .classKw then
    return [(← r.classStatement false).1]
  else if types && (← atKeyword? .interfaceKw) && (← isNameOnLine next) then
    return [← r.interfaceStatement]
  else
    let value ← r.innerItem
    semicolon
    return [.operand value]

/-- A declaration whose names are exported. -/
def exportedDeclaration (r : Rules) : Parser Stmt := do
  let start ← startOffset
  match ← r.typeDeclaration? with
  | some declaration => return declaration
  | none =>
    let words ← variableWords
    let (declaration, names) ← if words != 0 then r.variableStatement words
      else if ← atFunction? then
        let (declaration, name) ← r.functionStatement true
        pure (declaration, name.toList)
      else if (← atKeyword? .classKw) || (← at? .atSign) then
        let (declaration, name) ← r.classStatement true
        pure (declaration, name.toList)
      else unexpected
    names.forM fun name => exportName name start
    return declaration

/-- Names in braces that are exported, perhaps from another module. -/
def exportNames (r : Rules) : Parser Unit := do
  let start ← startOffset
  expect .lbrace
  let areNames ← listUntil .rbrace exportEntry
  expect .rbrace
  if ← atKeyword? .fromKw then r.fromModule
  else
    if areNames.any (!·) then breaks .exportedName start
    semicolon

/-- Everything that another module exports. -/
def exportAll (r : Rules) : Parser Unit := do
  expect .star
  if ← eatKeyword? .asKw then
    let start ← startOffset
    exportName (← exchangedName) start
  r.fromModule

/-- An export. -/
def exportStatement (r : Rules) : Parser Stmt := do
  let start ← startOffset
  advance
  let types ← types?
  let next ← peek
  let parts ← if ← at? .star then
      r.exportAll
      pure []
    else if ← at? .lbrace then
      r.exportNames
      pure []
    else if types && (← atKeyword? .typeKw) && next.kind == .punct .lbrace then
      advance
      r.exportNames
      pure []
    else if types && (← atKeyword? .typeKw) && next.kind == .punct .star then
      advance
      r.exportAll
      pure []
    else if ← eatKeyword? .defaultKw then
      exportName "default" start
      r.defaultExport
    else if types && (← at? .eq) then
      advance
      let value ← r.inner
      semicolon
      pure [.operand value]
    else if types && (← atKeyword? .asKw) && isKeyword next .namespaceKw then
      advance
      advance
      let _ ← identifier
      semicolon
      pure []
    else if types && (← atKeyword? .importKw) then pure [← r.importStatement]
    else pure [← r.exportedDeclaration]
  return .compound (← spanFrom start) parts

end Rules

end MarkupCompiler.Grammar
