import MarkupCompiler.Compile.Options
import MarkupCompiler.Emit.TemplateTable
import MarkupCompiler.Syntax.Stretch
import MarkupCompiler.Text.Quoted

/-!
# Emitting code

Code is emitted as text, in a monad that reads the source and the options, collects templates and
can fail. The templates that were collected before a failure stay in the table.
-/

namespace MarkupCompiler

open Syntax

/-- What an expression is emitted for. -/
inductive Context where
  /-- Its value, now. -/
  | plain
  /-- Its value as it changes: the runtime is given the accessor and not its value. -/
  | reactive
  /-- The handler of an event. -/
  | event
  /-- The body of a function. -/
  | callback
  deriving DecidableEq, Repr, Inhabited

/-- The context of the operands of a compound expression. The runtime watches whole values, so
operands are emitted for their value. -/
def Context.operand : Context → Context
  | reactive => plain
  | context => context

/-- Why no code can be emitted. -/
inductive EmitError where
  /-- A span that is no part of the source. -/
  | positionLost (span : Span)
  /-- Syntax that has no meaning in markup. -/
  | unsupported (what : String)
  /-- An element that is needed as HTML and is not static. -/
  | notStatic
  /-- A tree that is deeper than it was said to be. -/
  | tooDeep
  deriving DecidableEq, Repr, Inhabited

/-- The words of an error. -/
def EmitError.message : EmitError → String
  | positionLost span =>
    "node at " ++ toString span.start ++ ".." ++ toString span.stop
      ++ " has no resolvable source position"
  | unsupported what => "unsupported syntax in markup: " ++ what
  | notStatic => "element is not static and cannot be serialized as a template"
  | tooDeep => "unsupported syntax in markup: nesting"

/-- What code is emitted from. -/
structure Env where
  source : List Char
  options : CompileOptions

/-- A computation that emits code. -/
abbrev Emit := ReaderT Env (ExceptT EmitError (StateM TemplateTable))

/-- Runs a computation that emits code, from a table of templates on. -/
def Emit.runFrom {α : Type} (p : Emit α) (env : Env) (table : TemplateTable) :
    Except EmitError α × TemplateTable :=
  (p.run env).run.run table

/-- The name of a template. -/
def internTemplate (text : String) : Emit String := do
  let (name, table) := (← get).intern text
  set table
  return name

/-- The text of the source that a span covers. -/
def sourceText (span : Span) : Emit String := do
  match Text.slice? (← read).source span with
  | some text => return String.ofList text
  | none => throw (.positionLost span)

/-- The text of the source that a token covers. A token has at least one character. -/
def tokenText (span : Span) : Emit String :=
  if span.start == span.stop then throw (.positionLost span) else sourceText span

/-- The HTML of an element that has to be static. -/
def staticTemplate (html? : Option String) : Emit String :=
  match html? with
  | some html => internTemplate html
  | none => throw .notStatic

/-- The emitters for the parts of a construct. -/
structure Emitters where
  /-- An expression in a context. -/
  expr : Context → Expr → Emit String
  /-- Markup as an expression. -/
  markup : Markup → Emit String
  /-- The statements that make an element. -/
  block : Element → Emit String

namespace Emitters

/-- An operand of an expression in a context. -/
def operand (g : Emitters) (context : Context) (e : Expr) : Emit String :=
  g.expr context.operand e

/-- The text of a stretch of the source, with code in place of the markup in it. -/
def splice (g : Emitters) (stretch : Stretch) : Emit String := do
  let text ← sourceText stretch.span
  let replacements ← stretch.markups.mapM fun m => return ⟨m.span, (← g.markup m).toList⟩
  return String.ofList (Replacement.applyAll stretch.span.start text.toList replacements)

end Emitters

end MarkupCompiler
