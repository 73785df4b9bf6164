import MarkupCompiler.Syntax.Walk

/-!
# Stretches of the source that keep their text

Expressions are written anew, but a class, a method, the head and the body of a function, the target
of an assignment and an import with a phase keep their text, apart from the markup in it. These are
the stretches of the source that code is spliced into.
-/

namespace MarkupCompiler.Syntax

/-- A stretch of the source that keeps its text, apart from the markup in it. -/
inductive Stretch where
  /-- A class. -/
  | classText (span : Span) (parts : List Stmt)
  /-- What is assigned to, or stepped up or down. -/
  | target (e : Expr)
  /-- A method, getter or setter of an object literal. -/
  | method (span : Span) (key function : Expr)
  /-- An import with a phase. -/
  | importCall (span : Span) (source : Expr) (options : Option Expr)
  /-- A function up to the offset at which its body begins. -/
  | head (span : Span) (es : List Expr) (bodyStart : Nat)
  /-- The body of a function, in braces. -/
  | body (span : Span) (statements : List Stmt)
  /-- The parameters of a function. -/
  | params (span : Span) (es : List Expr)

/-- Where a stretch stands. -/
def Stretch.span : Stretch → Span
  | .classText span _ | .method span _ _ | .importCall span _ _ | .body span _ | .params span _ =>
    span
  | .target e => e.span
  | .head span _ bodyStart => ⟨span.start, bodyStart⟩

/-- The outermost markup of a stretch. -/
def Stretch.markups : Stretch → List Markup
  | .classText _ parts => stmtsMarkups parts
  | .target e => e.markups
  | .method _ key function => key.markups ++ function.markups
  | .importCall _ source options => source.markups ++ optionMarkups options
  | .head _ es _ => exprsMarkups es
  | .body _ statements => stmtsMarkups statements
  | .params _ es => exprsMarkups es

end MarkupCompiler.Syntax
