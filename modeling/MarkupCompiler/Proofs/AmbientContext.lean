import MarkupCompiler.Proofs.Agreement

/-!
# The context that is in force

The emitters of markup are not told in which context the markup stands. This module puts that
context back: `AmbientEmitters` are told the context in force wherever they are called, and hand it
down as it stands at that point. Markup gets the context of the expression around it, an operand
that of an operand, and what stands in the body of a function that of a callback, while its head is
still in the context of the function itself.

Nothing comes of it. Emitters that are told the context in force emit what the others emit
(`AmbientEmitters.below_within`), since whoever emits markup chooses the context of each expression
in it anew. And of an expression, code only depends on whether accessors are handed over, which they
are in reactive context alone (`code_independent_of_context`).
-/

namespace MarkupCompiler

open Syntax

/-- The emitters for the parts of a construct, each told the context in force. -/
structure AmbientEmitters where
  /-- An expression in a context. -/
  expr : Context → Expr → Emit String
  /-- Markup as an expression, where a context is in force. -/
  markup : Context → Markup → Emit String
  /-- The statements that make an element, where a context is in force. -/
  block : Context → Element → Emit String

namespace AmbientEmitters

/-- The emitters where a context is in force. -/
def within (g : AmbientEmitters) (c : Context) : Emitters := ⟨g.expr, g.markup c, g.block c⟩

/-- A function where a context is in force: its head is emitted in that context, its body in the
context of a callback. -/
def function (g : AmbientEmitters) (c : Context) (span : Span) (params : List Expr) (body : Body) :
    Emit String := do
  match body with
  | .missing => tokenText span
  | .expr value =>
    let head ← (g.within c).splice (.head span params value.span.start)
    return head ++ (← g.expr .callback value)
  | .block bodySpan statements =>
    let head ← (g.within c).splice (.head span params bodySpan.start)
    return head ++ (← (g.within .callback).splice (.body bodySpan statements))

/-- An expression in a context, which is in force for all that is in it but the bodies of
functions. -/
def exprText (g : AmbientEmitters) (c : Context) : Expr → Emit String
  | .arrow span _ _ params body => g.function c span params body
  | .function span _ _ params body => g.function c span params body
  | e => (g.within c).exprText c e

/-- The emitters for trees of less than a depth, each told the context in force. -/
def below : Nat → AmbientEmitters
  | 0 =>
    { expr := fun _ _ => throw .tooDeep
      markup := fun _ _ => throw .tooDeep
      block := fun _ _ => throw .tooDeep }
  | depth + 1 =>
    { expr := fun c e env => (below depth).exprText c e env
      markup := fun c m env => ((below depth).within c).markupText m env
      block := fun c e env => ((below depth).within c).elementBlock e env }

variable {g : AmbientEmitters} {g' : Emitters}

/-- If the context in force makes no difference to the parts of a function, it makes none to the
function. -/
theorem function_eq (h : ∀ c, g.within c = g') (c : Context) (span : Span) (params : List Expr)
    (body : Body) : g.function c span params body = g'.function span params body := by
  have hexpr : g.expr = g'.expr := congrArg Emitters.expr (h c)
  unfold function
  rw [h c, h .callback, hexpr]
  rfl

/-- If the context in force makes no difference to the parts of an expression, it makes none to the
expression. -/
theorem exprText_eq (h : ∀ c, g.within c = g') (c : Context) (e : Expr) :
    g.exprText c e = g'.exprText c e := by
  unfold exprText
  split
  · exact function_eq h c _ _ _
  · exact function_eq h c _ _ _
  · rw [h c]

/-- Emitters that are told the context in force emit what the emitters without it emit. -/
theorem below_within (depth : Nat) (c : Context) :
    (below depth).within c = Emitters.below depth := by
  induction depth generalizing c with
  | zero => rfl
  | succ depth ih =>
    -- One level down the context makes no difference, so this level hands down what it likes.
    have hexpr : (below depth).exprText = (Emitters.below depth).exprText :=
      funext fun c => funext fun e => exprText_eq ih c e
    have hmarkup : ((below depth).within c).markupText = (Emitters.below depth).markupText := by
      rw [ih c]
    have hblock : ((below depth).within c).elementBlock = (Emitters.below depth).elementBlock := by
      rw [ih c]
    calc (below (depth + 1)).within c
        = ⟨(below depth).exprText, ((below depth).within c).markupText,
            ((below depth).within c).elementBlock⟩ := rfl
      _ = ⟨(Emitters.below depth).exprText, (Emitters.below depth).markupText,
            (Emitters.below depth).elementBlock⟩ := by rw [hexpr, hmarkup, hblock]
      _ = Emitters.below (depth + 1) := rfl

end AmbientEmitters

/-- The code of an expression in a context that is handed down to all that is in it. -/
def emitExprIn (c : Context) (e : Expr) : Emit String :=
  (AmbientEmitters.below (e.depth + 1)).expr c e

/-- The code of markup that stands where a context is in force. -/
def emitMarkupIn (c : Context) (m : Markup) : Emit String :=
  (AmbientEmitters.below (m.depth + 1)).markup c m

/-- The code of an expression does not depend on the context being handed down. -/
theorem emitExprIn_eq (c : Context) (e : Expr) : emitExprIn c e = emitExpr c e :=
  congrArg (fun g : Emitters => g.expr c e) (AmbientEmitters.below_within (e.depth + 1) c)

/-- The code of markup does not depend on the context in force. -/
theorem emitMarkupIn_eq (c : Context) (m : Markup) : emitMarkupIn c m = emitMarkup m :=
  congrArg (fun g : Emitters => g.markup m) (AmbientEmitters.below_within (m.depth + 1) c)

/-- From any source, options and table of templates, the code of an expression for an event handler
and for the body of a function is its code for the value now: the same text or the same error, and
the same table. The code of an element or fragment is the same whatever context is in force where it
stands, reactive context included. So the context is the same thing whether it is handed down to all
that is in an expression or not. -/
theorem code_independent_of_context (env : Env) (table : TemplateTable) :
    (∀ e : Expr,
      (emitExpr .event e).runFrom env table = (emitExpr .plain e).runFrom env table ∧
        (emitExpr .callback e).runFrom env table = (emitExpr .plain e).runFrom env table) ∧
      (∀ (c : Context) (m : Markup),
        (emitMarkupIn c m).runFrom env table = (emitMarkup m).runFrom env table) ∧
      ∀ (c : Context) (e : Expr),
        (emitExprIn c e).runFrom env table = (emitExpr c e).runFrom env table := by
  refine ⟨fun e => ?_, fun c m => ?_, fun c e => ?_⟩
  · -- In none of the three contexts are accessors handed over.
    have hevent : Context.event.Alike .plain := iff_of_false (by decide) (by decide)
    have hcallback : Context.callback.Alike .plain := iff_of_false (by decide) (by decide)
    rw [emitExpr_congr hevent e, emitExpr_congr hcallback e]
    exact ⟨rfl, rfl⟩
  · rw [emitMarkupIn_eq]
  · rw [emitExprIn_eq]

end MarkupCompiler
