import MarkupCompiler.Grammar.Parser

/-!
# The rules of the grammar

The constructs of the language stand in one another, so each of their parsers needs the others. A
`Rules` value holds the parsers for the parts of a construct; the parsers of this folder are written
in terms of it and do not call themselves.
-/

namespace MarkupCompiler.Grammar

open Syntax

/-- The parsers for the parts of a construct. -/
structure Rules where
  /-- An expression without commas. -/
  assignment : Parser Expr
  /-- An operand and the operators after it that bind tighter than a level. -/
  binary : Nat → Parser Expr
  /-- An operand with the operators before it. -/
  unary : Parser Expr
  /-- An operand with its members and calls. -/
  leftHandSide : Parser Expr
  /-- What stands after `new`. -/
  callee : Parser Expr
  /-- A name or pattern that is declared. -/
  binding : Parser Expr
  /-- A type. -/
  type : Parser Unit
  /-- The parameters of a function, in parentheses. -/
  params : Parser (Span × List Expr)
  /-- A class, from its decorators or the word `class` on. -/
  classLike : Parser Expr
  /-- A statement. -/
  statement : Parser Stmt
  /-- Markup; the cursor is left on its last token. -/
  markup : Parser Markup

namespace Rules

/-- An expression: one or more expressions without commas, with commas between them. -/
def expression (r : Rules) : Parser Expr := do
  let start ← startOffset
  let first ← r.assignment
  if ← at? .comma then
    let rest ← many (at? .comma) (do advance; r.assignment)
    return .sequence (← spanFrom start) (first :: rest)
  else return first

/-- An expression in brackets of some kind. -/
def inner (r : Rules) : Parser Expr := bracketed r.expression

/-- An expression without commas in brackets of some kind. -/
def innerItem (r : Rules) : Parser Expr := bracketed r.assignment

/-- A colon and a type, if types may be written and there is a colon. -/
def annotation (r : Rules) : Parser Unit := do
  if (← types?) && (← at? .colon) then
    advance
    bracketed r.type

/-- An initializer, if there is one. -/
def initializer (r : Rules) : Parser (Option Expr) := do
  if ← eat? .eq then return some (← r.assignment) else return none

/-- Items of a list in parentheses or brackets: expressions, some of them spread. -/
def item (r : Rules) : Parser Item := do
  if ← eat? .ellipsis then return .spread (← r.innerItem) else return .value (← r.innerItem)

/-- The arguments of a call, in parentheses. -/
def arguments (r : Rules) : Parser (List Item) := do
  expect .lparen
  let items ← listUntil .rparen r.item
  expect .rparen
  return items

/-- The name of a property: a word, a literal, a private name or an expression in brackets. Tells
also whether it stands in brackets. -/
def propertyName (r : Rules) : Parser (Expr × Bool) := do
  let token ← token
  match token.kind with
  | .word name _ => advance; return (.ident token.span name, false)
  | .privateName name => advance; return (.ident token.span ("#" ++ name), false)
  | .string value => advance; return (.literal token.span (.string value), false)
  | .number value => advance; return (.literal token.span (.number value), false)
  | .bigint => advance; return (.literal token.span .bigint, false)
  | .punct .lbracket =>
    advance
    let key ← r.innerItem
    expect .rbracket
    return (key, true)
  | _ => unexpected

/-- Statements up to a closing brace, which is not passed. String literals at the front are
directives. -/
def bodyStatements (r : Rules) : Parser (List Stmt) :=
  loop (([], true) : List Stmt × Bool) fun (statements, atFront) => do
    let token ← token
    if token.kind == .punct .rbrace || token.kind == .finish then
      return .inr statements.reverse
    else
      match ← r.statement with
      | .expr span (.literal inner (.string value)) =>
        let s := if atFront then .directive span else .expr span (.literal inner (.string value))
        return .inl (s :: statements, atFront)
      | s => return .inl (s :: statements, false)

/-- A block of statements. -/
def block (r : Rules) : Parser Stmt := do
  let start ← startOffset
  expect .lbrace
  let parts ← many (do return !(← at? .rbrace) && (← token).kind != .finish) r.statement
  expect .rbrace
  return .compound (← spanFrom start) parts

/-- The body of a function, in braces. -/
def functionBody (r : Rules) : Parser Body := do
  let start ← startOffset
  expect .lbrace
  let statements ← r.bodyStatements
  expect .rbrace
  return .block (← spanFrom start) statements

/-- Decorators. -/
def decorators (r : Rules) : Parser (List Expr) :=
  many (at? .atSign) do
    advance
    withReader (fun scope => { scope with inDecorator := true }) r.leftHandSide

end Rules

/-- Whether a token may begin the name of a property. -/
def startsPropertyName (token : Token) : Bool :=
  match token.kind with
  | .word _ _ | .privateName _ | .string _ | .number _ | .bigint | .punct .lbracket => true
  | _ => false

end MarkupCompiler.Grammar
