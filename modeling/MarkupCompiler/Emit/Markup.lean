import MarkupCompiler.Emit.Server

/-!
# Markup as an expression

The emitters are tied together here. The emitters for the parts of a construct are those for trees
that are less deep, so the depth of a tree bounds how often they call one another.
-/

namespace MarkupCompiler

open Syntax

namespace Emitters

/-- An element as an expression. -/
def element (g : Emitters) (e : Element) : Emit String := do
  if e.isComponent then g.component e
  else if (← read).options.isServer then g.serverElement e
  else if e.isStatic then return "_$clone(" ++ (← staticTemplate e.staticHtml?) ++ ")"
  else return "(() => \x7b\n" ++ (← g.elementBlock e) ++ "\x7d)()"

/-- Markup as an expression. -/
def markupText (g : Emitters) : Markup → Emit String
  | .element e => g.element e
  | .fragment _ children => g.fragment children

/-- The emitters for trees of less than a depth. -/
def below : Nat → Emitters
  | 0 =>
    { expr := fun _ _ => throw .tooDeep
      markup := fun _ => throw .tooDeep
      block := fun _ => throw .tooDeep }
  | depth + 1 =>
    { expr := fun context e env => (below depth).exprText context e env
      markup := fun m env => (below depth).markupText m env
      block := fun e env => (below depth).elementBlock e env }

end Emitters

/-- The code of an expression in a context. -/
def emitExpr (context : Context) (e : Expr) : Emit String :=
  (Emitters.below (e.depth + 1)).expr context e

/-- The code of markup. -/
def emitMarkup (m : Markup) : Emit String := (Emitters.below (m.depth + 1)).markup m

end MarkupCompiler
