import MarkupCompiler.Proofs.Agreement

/-!
# Accessors are handed over along the spine

Where the runtime watches a value, a call of an accessor is emitted as the accessor. `Expr.defer`
does this to the tree: along the spine of an expression, that is inside parentheses and under what
types say about it, a call of an accessor becomes the accessor, and nothing else changes. Code for a
watched value is the code that the deferred expression has for its value now
(`reactive_eq_plain_defer`), so no call in an argument, an operand or a function is ever touched.
-/

namespace MarkupCompiler

open Syntax

/-- The accessor that an expression calls, if it is a call of an accessor and no more. -/
def Syntax.Expr.accessor? : Expr → Option Expr
  | .call _ callee _ [] false => if callee.isAccessor then some callee else none
  | _ => none

/-- An expression with the accessor in place of the call of an accessor at the end of its spine. An
optional chain that is such a call as a whole becomes the accessor too. -/
def Syntax.Expr.defer : Expr → Expr
  | .paren span inner => .paren span inner.defer
  | .typed span mark inner => .typed span mark inner.defer
  | .chain span inner => inner.accessor?.getD (.chain span inner.defer)
  | e => e.accessor?.getD e

/-- The form of a call of an accessor. -/
theorem Syntax.Expr.eq_call_of_accessor? {e callee : Expr} (h : e.accessor? = some callee) :
    callee.isAccessor = true ∧ ∃ span types, e = .call span callee types [] false := by
  unfold Expr.accessor? at h
  split at h
  · rename_i span callee' types
    split at h
    · rename_i haccessor
      cases h
      exact ⟨haccessor, span, types, rfl⟩
    · cases h
  · cases h

/-! ## The context and the form of an expression -/

/-- The code of a chain is that of the whole chain. -/
theorem emitExpr_chain (c : Context) (span : Span) (inner : Expr) :
    emitExpr c (.chain span inner) = emitExpr c inner := emitExpr_eq _ _

/-- A call of an accessor whose value is watched is emitted as the accessor. -/
theorem emitExpr_of_accessor? {e callee : Expr} (h : e.accessor? = some callee) :
    emitExpr .reactive e = emitExpr .plain callee := by
  obtain ⟨haccessor, span, types, rfl⟩ := Expr.eq_call_of_accessor? h
  rw [emitExpr_eq, Emitters.exprText, Emitters.call, haccessor]
  rfl

/-- A call that is not one of an accessor is emitted in the same way whether its value is watched or
not, since its operands are. -/
theorem emitExpr_call_of_accessor?_eq_none {span : Span} {callee : Expr} {types : Option Span}
    {arguments : List Item} {isOptional : Bool}
    (h : (Expr.call span callee types arguments isOptional).accessor? = none) :
    emitExpr .reactive (.call span callee types arguments isOptional) =
      emitExpr .plain (.call span callee types arguments isOptional) := by
  have hcondition : (Context.reactive == .reactive && arguments.isEmpty && !isOptional
      && callee.isAccessor) = false := by
    -- Without arguments and question mark, only the callee can be the reason.
    cases arguments with
    | nil =>
      cases isOptional with
      | false => simpa [Expr.accessor?] using h
      | true => rfl
    | cons argument arguments => rfl
  rw [emitExpr_eq, emitExpr_eq, Emitters.exprText, Emitters.exprText, Emitters.call, hcondition]
  rfl

/-- An expression at which a spine ends is emitted for a watched value as the accessor that it
calls, if it calls one, and otherwise as for its value now. -/
theorem emitExpr_reactive_of_end {e : Expr} (hparen : ∀ span inner, e ≠ .paren span inner)
    (htyped : ∀ span mark inner, e ≠ .typed span mark inner)
    (hchain : ∀ span inner, e ≠ .chain span inner) :
    emitExpr .reactive e = emitExpr .plain (e.accessor?.getD e) := by
  cases e with
  | call span callee types arguments isOptional =>
    cases h : (Expr.call span callee types arguments isOptional).accessor? with
    | none => exact emitExpr_call_of_accessor?_eq_none h
    | some accessor => exact emitExpr_of_accessor? h
  | paren span inner => exact absurd rfl (hparen span inner)
  | typed span mark inner => exact absurd rfl (htyped span mark inner)
  | chain span inner => exact absurd rfl (hchain span inner)
  -- Any other form asks for its operands alone, and their context is plain in both cases.
  | _ =>
    rw [emitExpr_eq]
    exact (emitExpr_eq _ _).symm

/-- The code of an expression whose value is watched is that of the deferred expression. -/
theorem emitExpr_reactive (e : Expr) : emitExpr .reactive e = emitExpr .plain e.defer := by
  fun_induction Expr.defer e with
  | case1 span inner ih =>
    rw [emitExpr_eq, emitExpr_eq, Emitters.exprText, Emitters.exprText]
    exact congrArg (· >>= fun text => pure ("(" ++ text ++ ")")) ih
  | case2 span mark inner ih =>
    rw [emitExpr_eq, emitExpr_eq, Emitters.exprText, Emitters.exprText]
    exact congrArg (· >>= Emitters.typed mark) ih
  | case3 span inner ih =>
    -- A chain is emitted like what is in it, and an accessor replaces the chain around its call.
    rw [emitExpr_chain]
    cases h : inner.accessor? with
    | none => rw [ih, Option.getD_none, emitExpr_chain]
    | some accessor => exact emitExpr_of_accessor? h
  | case4 e hparen htyped hchain => exact emitExpr_reactive_of_end hparen htyped hchain

/-- From any source, options and table of templates, code for a value that is watched and code for
the value now of the deferred expression are the same text or the same error, and leave the same
table. -/
theorem reactive_eq_plain_defer (e : Expr) (env : Env) (table : TemplateTable) :
    (emitExpr .reactive e).runFrom env table = (emitExpr .plain e.defer).runFrom env table := by
  rw [emitExpr_reactive]

end MarkupCompiler
