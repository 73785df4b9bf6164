import MarkupCompiler.Proofs.Deferral
import MarkupCompiler.Proofs.Rewriting

/-!
# Which deferred values keep their marker

A value between tags is emitted as one that the runtime watches, so a call of an accessor at the end
of its spine is handed over as the accessor. The marker of the value stays if the value may change,
and is removed otherwise. Whether a value may change is told from its form by a test of its own,
which looks through parentheses, `as`, `satisfies` and non-null marks, but not through types in
angle brackets.

So of the values for which an accessor is handed over, those with a type in angle brackets on their
spine lose their marker, and all others keep it (`deferred_value_keeps_marker`). Such a value can be
written between tags (`instantiated_accessor_loses_marker`), and what it shows is never updated.
-/

namespace MarkupCompiler

open Syntax Grammar Text

namespace Syntax.Expr

/-- Whether the spine of an expression ends in a call of an accessor. -/
def defers : Expr → Bool
  | .paren _ inner => inner.defers
  | .typed _ _ inner => inner.defers
  | .chain _ inner => inner.defers
  | e => e.accessor?.isSome

/-- Whether a type in angle brackets stands on the spine of an expression, outside of chains: an
assertion before the rest of the spine, or type arguments after it. -/
def isAngled : Expr → Bool
  | .paren _ inner => inner.isAngled
  | .typed _ mark inner =>
    match mark with
    | .assertion _ | .instantiation _ => true
    | .asType _ | .satisfies _ | .nonNull => inner.isAngled
  | _ => false

/-- A call of an accessor is a spine of its own. -/
theorem defers_of_accessor? {e callee : Expr} (h : e.accessor? = some callee) :
    e.defers = true := by
  obtain ⟨haccessor, span, types, rfl⟩ := eq_call_of_accessor? h
  exact Option.isSome_iff_exists.2 ⟨callee, h⟩

variable {e : Expr}

/-- An expression whose spine ends in no call of an accessor calls none. -/
theorem accessor?_of_not_defers (h : e.defers = false) : e.accessor? = none := by
  cases hcall : e.accessor? with
  | none => rfl
  | some callee =>
    rw [defers_of_accessor? hcall] at h
    cases h

/-- An expression whose spine ends in no call of an accessor is not changed. -/
theorem defer_of_not_defers (h : e.defers = false) : e.defer = e := by
  fun_induction defer e with
  | case1 span inner ih => rw [ih h]
  | case2 span mark inner ih => rw [ih h]
  | case3 span inner ih => rw [accessor?_of_not_defers (e := inner) h, Option.getD_none, ih h]
  | case4 e hparen htyped hchain => rw [accessor?_of_not_defers h, Option.getD_none]

/-- An accessor is a variable or a member, without parentheses. -/
theorem isReference_of_isAccessor (h : e.isAccessor = true) :
    e.isReference = true ∧ e.unparenthesized = e := by
  cases e with
  | ident span name => exact ⟨rfl, rfl⟩
  | member span owner name isOptional => exact ⟨rfl, rfl⟩
  | index span owner key isOptional => exact ⟨rfl, rfl⟩
  | _ => cases h

/-- A value for which an accessor is handed over is taken for one that may change unless a type in
angle brackets stands on its spine. -/
theorem mayChange_of_defers (h : e.defers = true) : e.mayChange = !e.isAngled := by
  fun_induction defers e with
  | case1 span inner ih => exact ih h
  | case2 span mark inner ih =>
    cases mark with
    | asType type => exact ih h
    | satisfies type => exact ih h
    | nonNull => exact ih h
    | assertion type => rfl
    | instantiation types => rfl
  | case3 span inner ih =>
    cases inner with
    | call span callee types arguments isOptional =>
      obtain ⟨accessor, haccessor⟩ := Option.isSome_iff_exists.1 h
      obtain ⟨hcallee, _, _, hcall⟩ := eq_call_of_accessor? haccessor
      cases hcall
      exact (isReference_of_isAccessor hcallee).1
    | _ => rfl
  | case4 e hparen htyped hchain =>
    obtain ⟨callee, hcallee⟩ := Option.isSome_iff_exists.1 h
    obtain ⟨haccessor, span, types, rfl⟩ := eq_call_of_accessor? hcallee
    obtain ⟨hreference, hbare⟩ := isReference_of_isAccessor haccessor
    rw [mayChange, hbare, hreference]
    rfl

/-- A value for which an accessor is handed over is no list of items. -/
theorem listShape?_of_defers (h : e.defers = true) : e.listShape? = none := by
  fun_induction defers e with
  | case1 span inner ih => exact ih h
  | case2 span mark inner ih => rfl
  | case3 span inner ih => rfl
  | case4 e hparen htyped hchain =>
    obtain ⟨callee, hcallee⟩ := Option.isSome_iff_exists.1 h
    obtain ⟨-, span, types, rfl⟩ := eq_call_of_accessor? hcallee
    unfold listShape?
    split
    · rename_i hcall
      cases hcall
    · rfl

end Syntax.Expr

variable {e : Expr} {env : Env}

/-- If the code of a value depends on whether it is watched, an accessor is handed over. -/
theorem defers_of_runFrom_ne {table : TemplateTable}
    (h : (emitExpr .reactive e).runFrom env table ≠ (emitExpr .plain e).runFrom env table) :
    e.defers = true := by
  cases hdefers : e.defers with
  | true => rfl
  | false =>
    refine absurd ?_ h
    rw [emitExpr_reactive, Expr.defer_of_not_defers hdefers]

/-- The statement that inserts code at a marker, and removes the marker unless it stays. -/
def insertionLine (marker code : String) (stays : Bool) : String :=
  "_$insert(" ++ marker ++ ".parentNode, " ++ code ++ ", " ++ marker ++ ");" ++
    (if stays then "" else " " ++ marker ++ ".remove();")

/-- The statement that inserts a value for which an accessor is handed over keeps the marker unless
a type in angle brackets stands on the spine of the value. -/
theorem insertion_of_defers (hdefers : e.defers = true) {value : PartValue}
    (hvalue : value = .expr e ∨ value = .spread e) {marker line : String}
    {table table' : TemplateTable}
    (h : (emitters.insertion marker value).runFrom env table = (.ok line, table')) :
    ∃ code, (emitExpr .reactive e).runFrom env table = (.ok code, table') ∧
      line = insertionLine marker code (!e.isAngled) := by
  have htest : Emitters.mayChange value = !e.isAngled := by
    rcases hvalue with rfl | rfl
    · exact Expr.mayChange_of_defers hdefers
    · exact Expr.mayChange_of_defers hdefers
  have hcode : emitters.partValue .reactive value = emitExpr .reactive e := by
    rcases hvalue with rfl | rfl
    · rfl
    · rfl
  unfold Emitters.insertion at h
  rw [hcode, htest] at h
  obtain ⟨code, hrun, rfl⟩ := Emit.runFrom_bind_pure_eq_ok.1 h
  exact ⟨code, hrun, rfl⟩

/-- A value for which an accessor is handed over is no list, so it is inserted. -/
theorem childBinding_of_defers (hdefers : e.defers = true) {part : Part}
    (hvalue : part.value = .expr e ∨ part.value = .spread e) {marker line : String}
    {table table' : TemplateTable}
    (h : (emitters.childBinding marker part).runFrom env table = (.ok line, table')) :
    ∃ code, (emitExpr .reactive e).runFrom env table = (.ok code, table') ∧
      line = insertionLine marker code (!e.isAngled) := by
  unfold Emitters.childBinding Emitters.contentBinding at h
  rcases hvalue with hvalue | hvalue
  · rw [hvalue] at h
    dsimp only at h
    -- A list of items would be bound in a way of its own.
    rw [Expr.listShape?_of_defers hdefers] at h
    exact insertion_of_defers hdefers (.inl rfl) h
  · rw [hvalue] at h
    exact insertion_of_defers hdefers (.inr rfl) h

/-! ## The marker of a value whose code depends on its being watched -/

/-- If the code of a value depends on whether the value is watched, the value is taken for one that
may change exactly if no type in angle brackets stands on its spine. Between tags its marker then
stays, and it is removed if there is such a type. -/
theorem deferred_value_keeps_marker (e : Expr) (env : Env) (table : TemplateTable)
    (h : (emitExpr .reactive e).runFrom env table ≠ (emitExpr .plain e).runFrom env table) :
    (e.mayChange = true ↔ e.isAngled = false) ∧
      ∀ (part : Part) (marker line : String) (table₁ table₂ : TemplateTable),
        part.value = .expr e ∨ part.value = .spread e →
        (emitters.childBinding marker part).runFrom env table₁ = (.ok line, table₂) →
        ∃ code, (emitExpr .reactive e).runFrom env table₁ = (.ok code, table₂) ∧
          line = insertionLine marker code (!e.isAngled) := by
  have hdefers := defers_of_runFrom_ne h
  refine ⟨?_, fun part marker line table₁ table₂ hvalue hrun =>
    childBinding_of_defers hdefers hvalue hrun⟩
  rw [Expr.mayChange_of_defers hdefers, Bool.not_eq_true']

/-- The call `count()!` of an accessor. -/
def knownCount : Expr :=
  .typed ⟨0, 8⟩ .nonNull (.call ⟨0, 7⟩ (.ident ⟨0, 5⟩ "count") none [] false)

/-- The accessor of `count()!` is handed over, and the marker stays. -/
theorem deferred_value_keeps_marker_count :
    (emitExpr .reactive knownCount).runFrom ⟨[], {}⟩ {} ≠
        (emitExpr .plain knownCount).runFrom ⟨[], {}⟩ {} ∧
      knownCount.mayChange = true ∧
      (emitters.childBinding "_m$0" ⟨[], .inContent 0, .expr knownCount⟩).runFrom ⟨[], {}⟩ {} =
        (.ok "_$insert(_m$0.parentNode, count!, _m$0);", {}) := by
  have hwatched : (emitExpr .reactive knownCount).runFrom ⟨[], {}⟩ {} = (.ok "count!", {}) := rfl
  have hnow : (emitExpr .plain knownCount).runFrom ⟨[], {}⟩ {} = (.ok "count()!", {}) := rfl
  have hne : (emitExpr .reactive knownCount).runFrom ⟨[], {}⟩ {} ≠
      (emitExpr .plain knownCount).runFrom ⟨[], {}⟩ {} := by
    rw [hwatched, hnow]
    intro heq
    have htext : "count!" = "count()!" := Except.ok.inj (congrArg Prod.fst heq)
    exact absurd htext (by decide)
  obtain ⟨htest, hbinding⟩ := deferred_value_keeps_marker knownCount ⟨[], {}⟩ {} hne
  refine ⟨hne, htest.2 rfl, ?_⟩
  obtain ⟨line, table', hrun⟩ : ∃ line table', (emitters.childBinding "_m$0"
      ⟨[], .inContent 0, .expr knownCount⟩).runFrom ⟨[], {}⟩ {} = (.ok line, table') := ⟨_, _, rfl⟩
  obtain ⟨code, hcode, rfl⟩ := hbinding _ "_m$0" line {} table' (.inl rfl) hrun
  rw [hwatched] at hcode
  cases hcode
  exact hrun

/-! ## A marker that is lost -/

/-- The expression in braces that a child is. -/
def Syntax.Child.expr? : Child → Option Expr
  | .expr e => some e
  | _ => none

/-- The expressions between the tags of the elements that are statements of a module. -/
def Syntax.Module.childExpressions (m : Module) : List Expr :=
  (m.expressions.filterMap Expr.bareElement?).flatMap fun e => e.children.filterMap Child.expr?

/-- A paragraph that shows an accessor with type arguments. -/
def instantiatedSource : String := "<p>\x7bcount()<string>\x7d</p>"

/-- The code of the paragraph: the accessor is inserted, and its marker is removed. -/
def instantiatedCode : String :=
  "import \x7b template as _$template, clone as _$clone, insert as _$insert, " ++
  "findMarker as _$findMarker \x7d from \"sprig/dom\";\n" ++
  "const _tmpl$0 = _$template(\"<p><!--#0--></p>\");\n" ++
  "(() => \x7b\n  const _root$ = _$clone(_tmpl$0);\n" ++
  "  const _m$0 = _$findMarker(_root$, \"#0\");\n" ++
  "  _$insert(_m$0.parentNode, count<string>, _m$0); _m$0.remove();\n  return _root$;\n\x7d)()"

/-- There is a module with one expression between its tags, for which an accessor is handed over and
which is not taken for one that may change. In the code of the module its marker is removed. -/
theorem instantiated_accessor_loses_marker :
    (∃ m e, parseModule (FileId.dialect "a.tsx") instantiatedSource.toList = .ok m ∧
      m.childExpressions = [e] ∧
      ((emitExpr .reactive e).runFrom ⟨instantiatedSource.toList, {}⟩ {}).1 =
        .ok "count<string>" ∧
      ((emitExpr .plain e).runFrom ⟨instantiatedSource.toList, {}⟩ {}).1 =
        .ok "count()<string>" ∧
      e.mayChange = false) ∧
    compile instantiatedSource "a.tsx" {} = .ok (some instantiatedCode) := by
  obtain ⟨m, hparse⟩ :
      ∃ m, parseModule (FileId.dialect "a.tsx") instantiatedSource.toList = .ok m :=
    exists_of_isSome_toOption (by decide +kernel)
  have hchecked : ∀ m, parseModule (FileId.dialect "a.tsx") instantiatedSource.toList = .ok m →
      m.childExpressions.map (fun e =>
        (((emitExpr .reactive e).runFrom ⟨instantiatedSource.toList, {}⟩ {}).1.toOption,
          ((emitExpr .plain e).runFrom ⟨instantiatedSource.toList, {}⟩ {}).1.toOption,
          e.mayChange)) =
        [(some "count<string>", some "count()<string>", false)] := by decide +kernel
  obtain ⟨e, hchild, he⟩ := List.map_eq_singleton_iff.1 (hchecked m hparse)
  simp only [Prod.mk.injEq] at he
  refine ⟨⟨m, e, hparse, hchild, eq_ok_of_toOption he.1, eq_ok_of_toOption he.2.1, he.2.2⟩, ?_⟩
  exact eq_ok_of_toOption (by decide +kernel)

end MarkupCompiler
