import MarkupCompiler.Emit.Basic
import MarkupCompiler.Markup.Reactivity

/-!
# Expressions as text

An expression is written back with single blanks between its parts. Functions, classes, methods and
the targets of assignments keep their text, apart from the markup in them.
-/

namespace MarkupCompiler.Emitters

open Syntax Text

/-- A list of arguments or array elements, without its brackets. -/
def items (g : Emitters) (context : Context) (items : List Item) : Emit (List String) :=
  items.mapM fun
    | .hole => return ""
    | .value e => g.operand context e
    | .spread e => return "..." ++ (← g.operand context e)

/-- Whether the last element of an array is a hole, which a comma has to keep. -/
def endsInHole : List Item → Bool
  | [] => false
  | [.hole] => true
  | _ :: rest => endsInHole rest

/-- The key of a property. -/
def propertyKey (g : Emitters) (context : Context) (key : Expr) (isComputed : Bool) :
    Emit String := do
  if isComputed then return "[" ++ (← g.operand context key) ++ "]"
  else
    match key with
    | .ident _ name => return name
    | e => tokenText e.span

/-- A property of an object literal. -/
def property (g : Emitters) (context : Context) : Property → Emit String
  | .spread e => return "..." ++ (← g.operand context e)
  | .field key isComputed value => do
    let key ← g.propertyKey context key isComputed
    return key ++ ": " ++ (← g.operand context value)
  | .shorthand value => g.operand context value
  | .shorthandDefault name value => do
    let name ← g.operand context name
    return name ++ " = " ++ (← g.operand context value)
  | .method span key function => g.splice (.method span key function)

/-- Entries in braces, as in an object literal. -/
def braced (entries : List String) : String :=
  if entries.isEmpty then "\x7b\x7d" else "\x7b " ++ joinWith ", " entries ++ " \x7d"

/-- The stretches of a template literal with the texts of its expressions between them. -/
def templateText : List Quasi → List String → String
  | [], _ => ""
  | quasi :: quasis, value :: values =>
    quasi.raw ++ "$\x7b" ++ value ++ "\x7d" ++ templateText quasis values
  | quasi :: quasis, [] => quasi.raw ++ templateText quasis []

/-- A template literal. -/
def template (g : Emitters) (context : Context) (quasis : List Quasi) (values : List Expr) :
    Emit String := do
  let values ← values.mapM (g.operand context)
  return "`" ++ templateText quasis values ++ "`"

/-- Type arguments as they stand in the source. -/
def typeArguments : Option Span → Emit String
  | some span => sourceText span
  | none => return ""

/-- A function: its head and body, both as they stand in the source apart from markup. -/
def function (g : Emitters) (span : Span) (params : List Expr) (body : Body) : Emit String := do
  match body with
  | .missing => tokenText span
  | .expr value =>
    let head ← g.splice (.head span params value.span.start)
    return head ++ (← g.expr .callback value)
  | .block bodySpan statements =>
    let head ← g.splice (.head span params bodySpan.start)
    return head ++ (← g.splice (.body bodySpan statements))

/-- A call. Where the runtime watches the value, a call of an accessor is the accessor. -/
def call (g : Emitters) (context : Context) (callee : Expr) (types : Option Span)
    (arguments : List Item) (isOptional : Bool) : Emit String := do
  if context == .reactive && arguments.isEmpty && !isOptional && callee.isAccessor then
    g.expr .plain callee
  else
    let callee ← g.operand context callee
    let types ← typeArguments types
    let arguments ← g.items context arguments
    let link := if isOptional then "?." else ""
    return callee ++ link ++ types ++ "(" ++ joinWith ", " arguments ++ ")"

/-- What stands between a unary operator and its operand: a blank after a word, and where two signs
would run together. -/
def unaryGap (op : UnaryOp) (operand : String) : String :=
  if op.isWord || (op == .minus && operand.toList.head? == some '-')
    || (op == .plus && operand.toList.head? == some '+') then " "
  else ""

/-- An expression with what a type says about it. -/
def typed (mark : TypeMark) (inner : String) : Emit String :=
  match mark with
  | .asType type => return inner ++ " as " ++ (← sourceText type)
  | .satisfies type => return inner ++ " satisfies " ++ (← sourceText type)
  | .assertion type => return "<" ++ (← sourceText type) ++ ">" ++ inner
  | .nonNull => return inner ++ "!"
  | .instantiation types => return inner ++ (← sourceText types)

/-- A literal. -/
def literal (span : Span) : Literal → Emit String
  | .null => return "null"
  | .boolean value => return if value then "true" else "false"
  | .number _ | .bigint | .regexp | .string _ => tokenText span

/-- An expression. -/
def exprText (g : Emitters) (context : Context) : Expr → Emit String
  | .literal span value => literal span value
  | .template _ quasis values => g.template context quasis values
  | .ident _ name => return name
  | .metaProperty _ object property => return object ++ "." ++ property
  | .superRef _ => return "super"
  | .thisRef _ => return "this"
  | .array _ items => do
    let texts ← g.items context items
    return "[" ++ joinWith ", " texts ++ (if endsInHole items then "," else "") ++ "]"
  | .object _ properties => return braced (← properties.mapM (g.property context))
  | .arrow span _ _ params body => g.function span params body
  | .function span _ _ params body => g.function span params body
  | .classExpr span parts => g.splice (.classText span parts)
  | .assign _ op target value => do
    let target ← g.splice (.target target)
    return target ++ " " ++ op.text ++ " " ++ (← g.operand context value)
  | .update _ op isBefore target => do
    let target ← g.splice (.target target)
    return if isBefore then op.text ++ target else target ++ op.text
  | .unary _ op operand => do
    let operand ← g.operand context operand
    return op.text ++ unaryGap op operand ++ operand
  | .binary _ op left right => do
    let left ← g.operand context left
    return left ++ " " ++ op.text ++ " " ++ (← g.operand context right)
  | .hasPrivate _ name right => return "#" ++ name ++ " in " ++ (← g.operand context right)
  | .conditional _ test consequent alternate => do
    let test ← g.operand context test
    let consequent ← g.operand context consequent
    return test ++ " ? " ++ consequent ++ " : " ++ (← g.operand context alternate)
  | .sequence _ parts => return joinWith ", " (← parts.mapM (g.operand context))
  | .await _ operand => return "await " ++ (← g.operand context operand)
  | .yield _ isDelegate operand => do
    let word := if isDelegate then "yield*" else "yield"
    match operand with
    | some operand => return word ++ " " ++ (← g.operand context operand)
    | none => return word
  | .call _ callee types arguments isOptional => g.call context callee types arguments isOptional
  | .construct _ callee types arguments => do
    let callee ← g.operand context callee
    let types ← typeArguments types
    let arguments ← g.items context arguments
    return "new " ++ callee ++ types ++ "(" ++ joinWith ", " arguments ++ ")"
  | .importCall span hasPhase source options => do
    if hasPhase then g.splice (.importCall span source options)
    else
      let source ← g.operand context source
      match options with
      | some options => return "import(" ++ source ++ ", " ++ (← g.operand context options) ++ ")"
      | none => return "import(" ++ source ++ ")"
  | .tagged _ tag types quasis values => do
    let tag ← g.operand context tag
    let types ← typeArguments types
    return tag ++ types ++ (← g.template context quasis values)
  | .chain _ inner => g.expr context inner
  | .paren _ inner => return "(" ++ (← g.expr context inner) ++ ")"
  | .member _ object name isOptional => do
    let object ← g.operand context object
    return object ++ (if isOptional then "?." else ".") ++ name.text
  | .index _ object key isOptional => do
    let object ← g.operand context object
    let key ← g.operand context key
    return object ++ (if isOptional then "?." else "") ++ "[" ++ key ++ "]"
  | .typed _ mark inner => do typed mark (← g.expr context inner)
  | .markup m => g.markup m

end MarkupCompiler.Emitters
