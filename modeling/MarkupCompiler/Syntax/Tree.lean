import MarkupCompiler.Text.Bytes
import MarkupCompiler.Number.Binary64

/-!
# Syntax trees

The tree of a module. Expressions are kept in full, since they are written back as text. Of the
statements only those that the compiler looks at have a form of their own; any other statement, and
a class, is the list of its constituents in source order, in which markup may stand. Types are
spans, for they hold no markup. A pattern is the expression that it looks like: a default in it is
an assignment. Parentheses around the target of an assignment are left out.
-/

namespace MarkupCompiler.Syntax

/-- A literal that is one token. Numbers, texts and the like are written back as in the source. -/
inductive Literal where
  | null
  | boolean (value : Bool)
  | number (value : Binary64)
  | bigint
  | regexp
  | string (value : String)
  deriving DecidableEq, Repr, Inhabited

/-- A stretch of a template literal: its text as written, with line feeds for line ends, and the
text that it stands for, if its escapes are well formed. -/
structure Quasi where
  raw : String
  cooked : Option String
  deriving DecidableEq, Repr, Inhabited

/-- The operators before an operand. -/
inductive UnaryOp where
  | minus | plus | not | complement | typeof | void | delete
  deriving DecidableEq, Repr, Inhabited

/-- How a unary operator is written. -/
def UnaryOp.text : UnaryOp → String
  | minus => "-" | plus => "+" | not => "!" | complement => "~"
  | typeof => "typeof" | void => "void" | delete => "delete"

/-- Whether a unary operator is a word. -/
def UnaryOp.isWord : UnaryOp → Bool
  | typeof | void | delete => true
  | _ => false

/-- The operators that step a variable up or down. -/
inductive UpdateOp where
  | increment | decrement
  deriving DecidableEq, Repr, Inhabited

/-- How an update operator is written. -/
def UpdateOp.text : UpdateOp → String
  | increment => "++" | decrement => "--"

/-- The operators between two operands. -/
inductive BinaryOp where
  | coalesce | or | and | bitOr | bitXor | bitAnd
  | looseEq | looseNe | strictEq | strictNe
  | lt | gt | le | ge | isIn | instanceOf
  | shl | shr | ushr | add | sub | mul | div | mod | pow
  deriving DecidableEq, Repr, Inhabited

/-- How a binary operator is written. -/
def BinaryOp.text : BinaryOp → String
  | coalesce => "??" | or => "||" | and => "&&" | bitOr => "|" | bitXor => "^" | bitAnd => "&"
  | looseEq => "==" | looseNe => "!=" | strictEq => "===" | strictNe => "!=="
  | lt => "<" | gt => ">" | le => "<=" | ge => ">=" | isIn => "in" | instanceOf => "instanceof"
  | shl => "<<" | shr => ">>" | ushr => ">>>" | add => "+" | sub => "-" | mul => "*" | div => "/"
  | mod => "%" | pow => "**"

/-- The assignment operators: plain, or combined with a binary operator. -/
inductive AssignOp where
  | plain
  | combined (op : BinaryOp)
  deriving DecidableEq, Repr, Inhabited

/-- How an assignment operator is written. -/
def AssignOp.text : AssignOp → String
  | plain => "="
  | combined op => op.text ++ "="

/-- What a type says about an expression. The spans are those of the type, or of the list of type
arguments with its angle brackets. -/
inductive TypeMark where
  | asType (type : Span)
  | satisfies (type : Span)
  | assertion (type : Span)
  | nonNull
  | instantiation (arguments : Span)
  deriving DecidableEq, Repr, Inhabited

/-- The name of a member: public, or private with `#` before it. -/
inductive MemberName where
  | plain (name : String)
  | hidden (name : String)
  deriving DecidableEq, Repr, Inhabited

/-- How the name of a member is written. -/
def MemberName.text : MemberName → String
  | plain name => name
  | hidden name => "#" ++ name

/-- What kind of function a function is, and its own name. -/
structure FunctionKind where
  isAsync : Bool
  isGenerator : Bool
  name : Option String
  deriving DecidableEq, Repr, Inhabited

/-- The tag of an element: a name with or without a namespace, a path of members, or `this`. -/
inductive TagName where
  | plain (name : String)
  | namespaced (space name : String)
  | path (object : String) (members : List String)
  | self
  deriving DecidableEq, Repr, Inhabited

/-- How a tag is written. -/
def TagName.text : TagName → String
  | plain name => name
  | namespaced space name => space ++ ":" ++ name
  | path object members => Text.joinWith "." (object :: members)
  | self => "this"

mutual

/-- An expression, or a pattern. -/
inductive Expr where
  | literal (span : Span) (value : Literal)
  | template (span : Span) (quasis : List Quasi) (values : List Expr)
  | ident (span : Span) (name : String)
  /-- `import.meta` or `new.target`. -/
  | metaProperty (span : Span) (object property : String)
  | superRef (span : Span)
  | thisRef (span : Span)
  | array (span : Span) (items : List Item)
  | object (span : Span) (properties : List Property)
  | arrow (span : Span) (isAsync : Bool) (paramSpan : Span) (params : List Expr) (body : Body)
  | function (span : Span) (kind : FunctionKind) (paramSpan : Span) (params : List Expr)
      (body : Body)
  | classExpr (span : Span) (parts : List Stmt)
  | assign (span : Span) (op : AssignOp) (target value : Expr)
  | update (span : Span) (op : UpdateOp) (isBefore : Bool) (target : Expr)
  | unary (span : Span) (op : UnaryOp) (operand : Expr)
  | binary (span : Span) (op : BinaryOp) (left right : Expr)
  /-- The test `#name in right`. -/
  | hasPrivate (span : Span) (name : String) (right : Expr)
  | conditional (span : Span) (test consequent alternate : Expr)
  | sequence (span : Span) (parts : List Expr)
  | await (span : Span) (operand : Expr)
  | yield (span : Span) (isDelegate : Bool) (operand : Option Expr)
  | call (span : Span) (callee : Expr) (typeArguments : Option Span) (arguments : List Item)
      (isOptional : Bool)
  | construct (span : Span) (callee : Expr) (typeArguments : Option Span) (arguments : List Item)
  /-- `import(source, options)`, perhaps with a phase, as in `import.defer(source)`. -/
  | importCall (span : Span) (hasPhase : Bool) (source : Expr) (options : Option Expr)
  | tagged (span : Span) (tag : Expr) (typeArguments : Option Span) (quasis : List Quasi)
      (values : List Expr)
  /-- A whole optional chain, around its outermost call, member or non-null mark. -/
  | chain (span : Span) (inner : Expr)
  | paren (span : Span) (inner : Expr)
  | member (span : Span) (object : Expr) (name : MemberName) (isOptional : Bool)
  | index (span : Span) (object key : Expr) (isOptional : Bool)
  | typed (span : Span) (mark : TypeMark) (inner : Expr)
  | markup (markup : Markup)

/-- An element of an array literal or an argument of a call. -/
inductive Item where
  | hole
  | value (value : Expr)
  | spread (value : Expr)

/-- A property of an object literal or object pattern. -/
inductive Property where
  | spread (value : Expr)
  | field (key : Expr) (isComputed : Bool) (value : Expr)
  /-- `name`, which is the key and the value. -/
  | shorthand (value : Expr)
  /-- `name = value`, in a pattern. -/
  | shorthandDefault (name value : Expr)
  /-- A method, getter or setter. -/
  | method (span : Span) (key : Expr) (function : Expr)

/-- The body of a function: none, in a declaration of its type alone; an expression; or a block. -/
inductive Body where
  | missing
  | expr (value : Expr)
  | block (span : Span) (statements : List Stmt)

/-- A statement, or a constituent of one. -/
inductive Stmt where
  | expr (span : Span) (value : Expr)
  /-- A string literal at the front of a body. -/
  | directive (span : Span)
  | ret (span : Span) (value : Option Expr)
  /-- Any other statement: its constituents in source order. -/
  | compound (span : Span) (parts : List Stmt)
  /-- An expression that belongs to a compound statement or a class. -/
  | operand (value : Expr)

/-- Markup in place of an expression. -/
inductive Markup where
  | element (element : Element)
  | fragment (span : Span) (children : List Child)

/-- An element: its tag, attributes and children. -/
inductive Element where
  | mk (span : Span) (tag : TagName) (attributes : List Attribute) (children : List Child)

/-- An attribute. A namespace stands before its name, with a colon. -/
inductive Attribute where
  | spread (value : Expr)
  | named (name : String) (value : AttributeValue)

/-- The value of an attribute: none, a quoted text as written, an expression in braces, empty
braces, or markup. -/
inductive AttributeValue where
  | bare
  | text (raw : String)
  | expr (value : Expr)
  | empty
  | markup (markup : Markup)

/-- A child of an element or fragment: text as written, markup, an expression in braces, empty
braces, or a spread in braces. -/
inductive Child where
  | text (raw : String)
  | markup (markup : Markup)
  | expr (value : Expr)
  | empty
  | spread (value : Expr)

end

namespace Element

/-- Where an element stands. -/
def span : Element → Span
  | mk span _ _ _ => span

/-- The tag of an element. -/
def tag : Element → TagName
  | mk _ tag _ _ => tag

/-- The attributes of an element, in source order. -/
def attributes : Element → List Attribute
  | mk _ _ attributes _ => attributes

/-- The children of an element, in source order. -/
def children : Element → List Child
  | mk _ _ _ children => children

end Element

/-- Where markup stands. -/
def Markup.span : Markup → Span
  | element e => e.span
  | fragment span _ => span

/-- Where an expression stands. -/
def Expr.span : Expr → Span
  | literal span _ | template span _ _ | ident span _ | metaProperty span _ _ | superRef span
  | thisRef span | array span _ | object span _ | arrow span _ _ _ _ | function span _ _ _ _
  | classExpr span _ | assign span _ _ _ | update span _ _ _ | unary span _ _ | binary span _ _ _
  | hasPrivate span _ _ | conditional span _ _ _ | sequence span _ | await span _ | yield span _ _
  | call span _ _ _ _ | construct span _ _ _ | importCall span _ _ _ | tagged span _ _ _ _
  | chain span _ | paren span _ | member span _ _ _ | index span _ _ _ | typed span _ _ => span
  | markup m => m.span

/-- An expression without the parentheses around it. -/
def Expr.unparenthesized : Expr → Expr
  | paren _ inner => inner.unparenthesized
  | e => e

/-- Where the body of a function begins. -/
def Body.start? : Body → Option Nat
  | missing => none
  | expr value => some value.span.start
  | block span _ => some span.start

/-- A module: its statements. -/
structure Module where
  statements : List Stmt

/-- The expression of a statement that is nothing else. -/
def Stmt.expr? : Stmt → Option Expr
  | expr _ value => some value
  | _ => none

/-- The expressions that are statements of a module. -/
def Module.expressions (m : Module) : List Expr := m.statements.filterMap Stmt.expr?

/-- What a call calls. -/
def Expr.callee? : Expr → Option Expr
  | call _ callee _ _ _ => some callee
  | _ => none

/-- The element that an expression is. -/
def Expr.bareElement? : Expr → Option Element
  | markup (.element e) => some e
  | _ => none

end MarkupCompiler.Syntax
