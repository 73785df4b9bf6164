import Mathlib
import MarkupCompiler.Proofs.Constituents
import MarkupCompiler.Proofs.TypeSpec

/-!
# What the parsers of expressions leave and give
-/

namespace MarkupCompiler.Grammar

open Std.Do Syntax Text

set_option mvcgen.warning false

attribute [local simp] Expr.layout Item.layouts Property.layouts Body.layouts Stmt.layout
  Attribute.layouts AttributeValue.layouts Child.layouts Markup.layout Element.layout
  Expr.IsSpelled Item.IsSpelled Property.IsSpelled Body.IsSpelled Stmt.IsSpelled Markup.IsSpelled

variable [Source] {c₀ : Cursor}

/-! ## Functions -/

omit [Source] in
/-- A test of a token moves nothing. -/
@[spec] theorem startsBinding_spec (token : Token) : Reads c₀ (startsBinding token) := by
  mvcgen [startsBinding] with simp_all

/-- Words before a parameter go on in the text. -/
@[spec] theorem parameterModifiers_spec : Keeps c₀ parameterModifiers := by
  refine keeps_of fun n => ?_
  mvcgen [parameterModifiers] with simp_all

/-- Words before a method go on in the text. -/
@[spec] theorem methodHead_spec : Keeps c₀ methodHead := by
  refine keeps_of fun n => ?_
  mvcgen [methodHead] with (simp_all <;> omega)

namespace Rules

variable {r : Rules} (hr : r.Sound)
include hr

/-- A pattern with its default is in order. -/
@[spec] theorem bindingElement_spec : Grammar.Sound c₀ r.bindingElement := by
  refine sound_of fun n => ?_
  mvcgen [bindingElement] with (simp_all; omega)

/-- An element of an array pattern is in order. -/
@[spec] theorem patternItem_spec : Grammar.Sound c₀ r.patternItem := by
  refine sound_of fun n => ?_
  mvcgen [patternItem] with (simp_all <;> omega)

/-- A property of an object pattern is in order. -/
@[spec] theorem patternProperty_spec : Grammar.Sound c₀ r.patternProperty := by
  refine sound_of fun n => ?_
  mvcgen [patternProperty] with (simp_all <;> omega)

/-- A name or pattern is in order. -/
@[spec] theorem bindingTarget_spec : Grammar.Sound c₀ r.bindingTarget := by
  refine sound_of fun n => ?_
  mvcgen [bindingTarget] with (simp_all <;> omega)

/-- A parameter is in order. -/
@[spec] theorem parameter_spec : Grammar.Sound c₀ r.parameter := by
  refine sound_of fun n => ?_
  mvcgen [parameter] with (simp_all <;> omega)

/-- The span of parameters ends where the last token does. -/
@[spec] theorem parameterList_spec :
    Ensures c₀ r.parameterList fun a cursor => c₀.On Source.text → Given c₀.lastStop a cursor ∧
      a.1.stop = cursor.lastStop := by
  refine triple_imp fun hon => ?_
  mvcgen [parameterList] with (simp_all <;> omega)

/-- A function is in order from its parameters on. -/
@[spec] theorem functionRest_spec (start : Nat) (kind : FunctionKind) :
    SoundAt c₀ start (r.functionRest start kind) := by
  refine triple_imp fun hon => ?_
  mvcgen [functionRest] with simp_all
  · omega
  · rename_i hparams hreturn _ _ _ hbody _
    -- The body is read after the parameters.
    refine ⟨by omega, ⟨by omega, headFits_of_starts hbody.2 ?_⟩, by omega⟩
    simp only [Layout.reach_plain, reachOf_layouts]
    omega

/-- A method is in order from its parameters on. -/
@[spec] theorem methodRest_spec (head : MethodHead) :
    Grammar.Sound c₀ (r.methodRest head) := by
  refine sound_of fun n => ?_
  mvcgen [methodRest] with (simp_all; omega)

/-- A function is in order. -/
@[spec] theorem functionLike_spec (start : Nat) (isAsync : Bool) :
    SoundAt c₀ start (r.functionLike start isAsync) := by
  refine triple_imp fun hon => ?_
  mvcgen [functionLike] with (simp_all; omega)

/-! ## Literals -/

omit hr in
/-- The cursor is moved past a stretch of text in a template literal. -/
theorem kept_scanTemplate {cursor : Cursor} {scan : TemplateScan} (hon : cursor.On Source.text)
    (hscan : scanTemplate 0 cursor.after = some scan) :
    Kept cursor.lastStop (cursor.moveTo (scan.stop cursor.token.span.stop) scan.rest) := by
  refine .moveTo cursor (isLeft_scanTemplate hscan hon.after) ?_
  have horder := hon.order
  unfold TemplateScan.stop
  omega

omit hr in
/-- A stretch of text in a template literal is spelled in the text. -/
theorem isSpelled_quasi {cursor : Cursor} {scan : TemplateScan} (hon : cursor.On Source.text)
    (hscan : scanTemplate 0 cursor.after = some scan) : Quasi.IsSpelled Source.text
      ⟨String.ofList (unifyLineEnds scan.raw), scan.cooked.map unitsText⟩ :=
  (isSpelled_scanTemplate hscan).quasi.mono hon.after.subset

/-- The parts of a template literal are in order. -/
@[spec] theorem templateParts_spec : Grammar.Sound c₀ r.templateParts := by
  refine sound_of fun n => ?_
  mvcgen [templateParts]
  · simp_all
  · exact False.elim
  · rename_i cursor h _ scan hscan _ hlast
    have hquasi := isSpelled_quasi h.1 hscan
    have hkept := kept_scanTemplate h.1 hscan
    rw [scan.stop_of_isLast hlast] at hkept
    simp_all +zetaDelta
    omega
  · rename_i cursor h _ scan hscan _ hlast _ _ _ hvalue _ _ _ hbrace
    have hquasi := isSpelled_quasi h.1 hscan
    have hkept := kept_scanTemplate h.1 hscan
    rw [scan.stop_of_not_isLast hlast] at hkept
    have hgiven := (hvalue hkept.on).1
    have hend := hbrace hgiven.on
    have hle := hkept.le.trans (hgiven.le.trans hend.le)
    clear hvalue hbrace
    simp_all +zetaDelta
    omega

/-- A template literal is in order. -/
@[spec] theorem template_spec : Grammar.Sound c₀ r.template := by
  refine sound_of fun n => ?_
  mvcgen [template] with (simp_all <;> omega)

/-- An array literal is in order. -/
@[spec] theorem arrayLiteral_spec : Grammar.Sound c₀ r.arrayLiteral := by
  refine sound_of fun n => ?_
  mvcgen [arrayLiteral] with (simp_all <;> omega)

/-- A property of an object literal is in order. -/
@[spec] theorem objectProperty_spec : Grammar.Sound c₀ r.objectProperty := by
  refine sound_of fun n => ?_
  mvcgen [objectProperty] with (simp_all +zetaDelta <;> omega)

/-- An object literal is in order. -/
@[spec] theorem objectLiteral_spec : Grammar.Sound c₀ r.objectLiteral := by
  refine sound_of fun n => ?_
  mvcgen [objectLiteral] with (simp_all <;> omega)

end Rules


/-! ## Arrow functions -/

instance : HasMarkup ArrowHead where
  layouts head := [.mk .plain head.paramSpan (exprsLayouts head.params)]
  spelled text head := exprsSpelled text head.params
  starts offset head := offset ≤ head.start

/-- What is known of the head of an arrow function. -/
@[simp] theorem result_arrowHead {head : ArrowHead} :
    (Opened head ↔ reach head.params ≤ head.paramSpan.stop ∧ Opened head.params) ∧
      reach head = reach head.params ∧ ∀ offset, Starts offset head ↔ offset ≤ head.start := by
  refine ⟨?_, ?_, fun _ => Iff.rfl⟩
  · simp only [Opened, HasMarkup.layouts, HasMarkup.spelled, exprsSpelled_iff, reach,
      Layout.allOpened_singleton, Layout.opened_mk, Layout.reach_plain, exprsLayouts_eq,
      reduceCtorEq, false_implies, true_and, and_assoc]
  · simp only [reach, HasMarkup.layouts, exprsLayouts_eq, Layout.reachOf_cons, Layout.reach_plain,
      Layout.reachOf_nil, Nat.max_zero]

/-- What starts no sooner than an offset starts no sooner than one before it. -/
theorem starts_option_mono {e? : Option Expr} {n m : Nat} (h : Starts m e?) (hle : n ≤ m) :
    Starts n e? := by
  cases e? with
  | none => simp
  | some e =>
    simp only [result_some, result_expr] at h ⊢
    exact Nat.le_trans hle h

omit [Source] in
/-- Looking for an arrow function moves nothing. -/
@[spec] theorem arrowVerdict_spec : Reads c₀ arrowVerdict := lookAhead_spec _

namespace Rules

variable {r : Rules} (hr : r.Sound)
include hr

/-- The head of an arrow function is in order. -/
@[spec] theorem arrowHead_spec : Grammar.Sound c₀ r.arrowHead := by
  refine sound_of fun n => ?_
  mvcgen [arrowHead] with (simp_all; omega)

/-- An arrow function is in order if its head is. -/
@[spec] theorem arrowRest_spec {head : ArrowHead} :
    Ensures c₀ (r.arrowRest head) fun a cursor => c₀.On Source.text → Opened head →
      reach head ≤ c₀.lastStop → Given c₀.lastStop a cursor ∧ Starts head.start a := by
  refine triple_imp fun hon => triple_imp fun hhead => triple_imp fun hreach => ?_
  mvcgen [arrowRest] with simp_all
  · rename_i hbody _
    -- The body is read after the parameters.
    refine ⟨by omega, ⟨by omega, headFits_of_starts hbody.2 ?_⟩, by omega⟩
    simp only [Layout.reach_plain, reachOf_layouts]
    omega
  · rename_i hbody _
    refine ⟨by omega, ⟨by omega, ?_⟩, by omega⟩
    show Layout.reach _ ≤ _
    simp only [Layout.reach_plain, reachOf_layouts]
    omega

/-- An arrow function that is tried is in order. -/
@[spec] theorem possibleArrow_spec : Grammar.Sound c₀ r.possibleArrow := by
  refine sound_of fun n => ?_
  have hhead := fun c₀ => attempt_spec_of (@arrowHead_spec _ c₀ r hr)
  have hrest := fun c₀ head => attempt_spec_of (@arrowRest_spec _ c₀ r hr head)
  mvcgen [possibleArrow, hhead, hrest, -attempt_spec] with (simp_all <;> omega)

/-- An arrow function of a plain name is in order. -/
@[spec] theorem simpleArrow?_spec : Grammar.Sound c₀ r.simpleArrow? := by
  refine sound_of fun n => ?_
  mvcgen [simpleArrow?] with (simp_all <;> omega)

/-- An arrow function is in order if it is there. -/
@[spec] theorem arrow?_spec : Grammar.Sound c₀ r.arrow? := by
  refine sound_of fun n => ?_
  mvcgen [arrow?] with simp_all
  · omega
  · intro _ hle _ _ hstarts
    exact ⟨by omega, starts_option_mono hstarts (by omega)⟩

end Rules

/-! ## Classes -/

/-- Words before a member go on in the text. -/
@[spec] theorem memberModifiers_spec : Keeps c₀ memberModifiers := by
  refine keeps_of fun n => ?_
  mvcgen [memberModifiers] with simp_all

namespace Rules

/-- Checking a name stays in the text. -/
@[spec] theorem checkName_spec (isStatic isMethod : Bool) (head : MethodHead)
    (name? : Option String) : Keeps c₀ (checkName isStatic isMethod head name?) := by
  refine keeps_of fun n => ?_
  mvcgen [checkName] with simp_all

variable {r : Rules} (hr : r.Sound)
include hr

/-- The value of a field is in order. -/
@[spec] theorem fieldValue_spec : Grammar.Sound c₀ r.fieldValue := by
  refine sound_of fun n => ?_
  mvcgen [fieldValue] with simp_all

/-- A static block is in order. -/
@[spec] theorem staticBlock_spec : Grammar.Sound c₀ r.staticBlock := by
  refine sound_of fun n => ?_
  mvcgen [staticBlock] with (simp_all; omega)

/-- An index signature goes on in the text. -/
@[spec] theorem indexSignature?_spec : Keeps c₀ r.indexSignature? := by
  refine keeps_of fun n => ?_
  mvcgen [indexSignature?] with (simp_all <;> omega)

/-- A method or a field is in order. -/
@[spec] theorem plainMember_spec (isStatic : Bool) : Grammar.Sound c₀ (r.plainMember isStatic) := by
  refine sound_of fun n => ?_
  mvcgen [plainMember] with (simp_all <;> omega)

/-- A member of a class is in order. -/
@[spec] theorem classMember_spec : Grammar.Sound c₀ r.classMember := by
  refine sound_of fun n => ?_
  mvcgen [classMember] with (simp_all <;> omega)

/-- What a class inherits from is in order. -/
@[spec] theorem heritage_spec : Grammar.Sound c₀ r.heritage := by
  refine sound_of fun n => ?_
  mvcgen [heritage] with (simp_all <;> omega)

/-- A class is in order if its decorators are. -/
@[spec] theorem classFrom_spec : Grammar.Sound c₀ r.classFrom := by
  refine sound_of fun n => ?_
  mvcgen [classFrom] with (simp_all <;> omega)

end Rules


/-! ## Operands -/

/-- A regular expression is read from its first slash on. -/
@[spec] theorem regexp_spec :
    Ensures c₀ regexp fun e cursor => c₀.On Source.text →
      (c₀.token.kind = .punct .slash ∨ c₀.token.kind = .punct .slashEq) →
      Given c₀.lastStop e cursor ∧ Starts c₀.lastStop e := by
  refine triple_imp fun hon => triple_imp fun hkind => ?_
  mvcgen [regexp]
  · exact False.elim
  · rename_i cursor h start bytes rest hscan flags stop _ _ _ _ _ hspan
    subst h
    -- Either token begins with the slash of the expression.
    have hhere : ∃ after, cursor.here = '/' :: after := by
      rcases hkind with hkind | hkind
      · exact ⟨cursor.after, hon.punct .slash hkind⟩
      · exact ⟨'=' :: cursor.after, hon.punct .slashEq hkind⟩
    obtain ⟨after, hhere⟩ := hhere
    rw [hhere, List.drop_one, List.tail_cons] at hscan
    have hafter : IsLeft Source.text (cursor.token.span.start + 1) after :=
      (hhere ▸ hon.here).append ['/']
    have hleft := (isLeft_scanPattern hscan hafter).drop flags.written
    have horder := hon.order.1
    have hkept := Kept.moveTo cursor hleft (n := cursor.lastStop) (by omega)
    obtain ⟨rfl, rfl⟩ := hspan
    refine ⟨⟨hkept, ?_, ?_⟩, ?_⟩
    · simp
    · simp
    · simpa using horder

/-- An operator that may be there stays in the text. -/
@[spec] theorem binaryOp?_spec : Keeps c₀ binaryOp? := by
  refine keeps_of fun n => ?_
  mvcgen [binaryOp?] with simp_all

/-- A test for the end of type arguments stays in the text. -/
@[spec] theorem followsTypeArguments_spec : Keeps c₀ followsTypeArguments := by
  refine keeps_of fun n => ?_
  mvcgen [followsTypeArguments] with simp_all

section

variable {e : Expr} {inChain : Bool}

/-- An expression that is closed as a chain, if it is one, is in order if the expression is. -/
@[simp] theorem opened_closeChain (h : e.layout.Opened Source.text) :
    (if inChain = true then closeChain e else e).layout.Opened Source.text := by
  unfold closeChain
  split
  · split <;> simp_all
  · exact h

/-- A chain is spelled as its links are. -/
@[simp] theorem isSpelled_closeChain :
    (if inChain = true then closeChain e else e).IsSpelled Source.text ↔
      e.IsSpelled Source.text := by
  unfold closeChain
  split
  · split <;> simp
  · rfl

omit [Source] in
/-- A chain reaches as far as its links. -/
@[simp] theorem reach_closeChain :
    (if inChain = true then closeChain e else e).layout.reach = e.layout.reach := by
  unfold closeChain
  split
  · split <;> simp
  · rfl

omit [Source] in
/-- A chain starts and ends as its links do. -/
@[simp] theorem span_closeChain :
    (if inChain = true then closeChain e else e).layout.span = e.layout.span := by
  unfold closeChain
  split
  · split <;> simp [Expr.span_layout]
  · rfl

end

/-- What stands in parentheses is in order if they are. -/
@[simp] theorem opened_unparenthesized {e : Expr} (h : e.layout.Opened Source.text) :
    e.unparenthesized.layout.Opened Source.text :=
  h.of_mem e.layout_unparenthesized

/-- An expression is spelled as it is without parentheses. -/
@[simp] theorem isSpelled_unparenthesized {e : Expr} :
    e.unparenthesized.IsSpelled Source.text ↔ e.IsSpelled Source.text := by
  induction e using Expr.unparenthesized.induct with
  | case1 span inner ih => simpa [Expr.unparenthesized] using ih
  | case2 e hparen => rw [Expr.unparenthesized.eq_2 e hparen]

omit [Source] in
/-- An expression reaches as far without parentheses. -/
@[simp] theorem reach_unparenthesized (e : Expr) :
    e.unparenthesized.layout.reach = e.layout.reach := by
  induction e using Expr.unparenthesized.induct with
  | case1 span inner ih => simpa [Expr.unparenthesized] using ih
  | case2 e hparen => rw [Expr.unparenthesized.eq_2 e hparen]

namespace Rules

variable {r : Rules}

/-- A member is in order if its object is. -/
@[spec] theorem memberAfterDot_spec {object : Expr} (start : Nat) (isOptional : Bool) :
    Extends c₀ start object (memberAfterDot start object isOptional) := by
  refine extends_of fun hon hopened hreach => ?_
  mvcgen [memberAfterDot] with (simp_all <;> omega)

variable (hr : r.Sound)
include hr

/-- An import as an expression is in order. -/
@[spec] theorem importExpr_spec : Grammar.Sound c₀ r.importExpr := by
  refine sound_of fun n => ?_
  mvcgen [importExpr] with (simp_all [spelled_metaProperty]; omega)

/-- A construction is in order. -/
@[spec] theorem construct_spec : Grammar.Sound c₀ r.construct := by
  refine sound_of fun n => ?_
  mvcgen [construct] with simp_all [spelled_metaProperty]
  · omega
  -- The type arguments of what is constructed are taken from it.
  all_goals split <;> simp_all <;> omega

/-- Markup as an expression is in order. -/
@[spec] theorem markupExpr_spec :
    Ensures c₀ r.markupExpr fun e cursor => c₀.On Source.text → c₀.token.kind = .punct .lt →
      Given c₀.lastStop e cursor ∧ Starts c₀.lastStop e := by
  refine triple_imp fun hon => triple_imp fun hkind => ?_
  mvcgen [markupExpr] with (simp_all; omega)

/-- An expression in parentheses is in order. -/
@[spec] theorem parenthesized_spec : Grammar.Sound c₀ r.parenthesized := by
  refine sound_of fun n => ?_
  mvcgen [parenthesized] with (simp_all; omega)

/-- An operand is in order. -/
@[spec] theorem primary_spec : Grammar.Sound c₀ r.primary := by
  refine sound_of fun n => ?_
  mvcgen [primary] with (simp_all <;> omega)

/-- Type arguments in an expression go on in the text. -/
@[spec] theorem expressionTypeArguments_spec : Keeps c₀ r.expressionTypeArguments := by
  refine keeps_of fun n => ?_
  mvcgen [expressionTypeArguments] with (simp_all <;> omega)

/-- A member in brackets is in order if its object is. -/
@[spec] theorem indexed_spec {object : Expr} (start : Nat) (isOptional : Bool) :
    Extends c₀ start object (r.indexed start object isOptional) := by
  refine extends_of fun hon hopened hreach => ?_
  mvcgen [indexed] with (simp_all; omega)

/-- A call is in order if the function is. -/
@[spec] theorem called_spec {callee : Expr} (start : Nat) :
    Extends c₀ start callee (r.called start callee) := by
  refine extends_of fun hon hopened hreach => ?_
  mvcgen [called] with (simp_all; omega)

/-- A template literal with a tag is in order if the tag is. -/
@[spec] theorem taggedTemplate_spec {tag : Expr} (start : Nat) :
    Extends c₀ start tag (r.taggedTemplate start tag) := by
  refine extends_of fun hon hopened hreach => ?_
  mvcgen [taggedTemplate] with (simp_all; omega)

/-- An optional link is in order if its object is. -/
@[spec] theorem optionalLink_spec {object : Expr} (start : Nat) :
    Extends c₀ start object (r.optionalLink start object) := by
  refine extends_of fun hon hopened hreach => ?_
  mvcgen [optionalLink] with (simp_all <;> omega)

/-- Members and calls are in order if the operand is. Each round keeps that. -/
@[spec] theorem links_spec {operand : Expr} (calls : Bool) (start : Nat) :
    Extends c₀ start operand (r.links calls start operand) := by
  refine ensures_iff.2 ?_
  rintro scope result last hrun hon hopened hreach
  have hloop := loop_invariant
    (fun n (state : Expr × Bool) => Opened state.1 ∧ reach state.1 ≤ n ∧
      Starts (min start operand.layout.span.start) state.1)
    (fun n e => Opened e ∧ reach e ≤ n ∧ Starts (min start operand.layout.span.start) e)
    ?_ hrun hon ⟨hopened, hreach, by simp⟩
  · exact ⟨⟨hloop.1, hloop.2.1, hloop.2.2.1⟩, hloop.2.2.2⟩
  · clear hrun hon hopened hreach
    rintro n state ⟨hopened, hreach, hstarts⟩
    mvcgen with (simp_all +zetaDelta <;> grind)

/-- An operand with members and calls is in order. -/
@[spec] theorem memberOrCall_spec : Grammar.Sound c₀ r.memberOrCall := by
  refine sound_of fun n => ?_
  mvcgen [memberOrCall] with (simp_all <;> omega)

/-- An operand with members is in order. -/
@[spec] theorem constructed_spec : Grammar.Sound c₀ r.constructed := by
  refine sound_of fun n => ?_
  mvcgen [constructed] with (simp_all <;> omega)

end Rules

/-! ## Operators -/

namespace Rules

omit [Source] in
/-- Where markup stands there is an angle bracket. -/
@[spec] theorem atMarkup?_spec :
    Ensures c₀ atMarkup? fun a cursor => cursor = c₀ ∧ (a = true → c₀.token.kind = .punct .lt) := by
  mvcgen [atMarkup?] with simp_all

omit [Source] in
/-- A test for `await` moves nothing. -/
@[spec] theorem atAwait?_spec : Reads c₀ atAwait? := by
  mvcgen [atAwait?] with simp_all

variable {r : Rules} (hr : r.Sound)
include hr

/-- An operand with an update after it is in order. -/
@[spec] theorem updated_spec : Grammar.Sound c₀ r.updated := by
  refine sound_of fun n => ?_
  mvcgen [updated] with (simp_all <;> omega)

/-- An operand with operators before it is in order. -/
@[spec] theorem prefixed_spec : Grammar.Sound c₀ r.prefixed := by
  refine sound_of fun n => ?_
  mvcgen [prefixed] with (simp_all +zetaDelta <;> omega)

/-- An expression with a type after it is in order if it is. -/
@[spec] theorem typeAfter_spec {e : Expr} (start : Nat) (mark : Span → TypeMark) :
    Extends c₀ start e (r.typeAfter start mark e) := by
  refine extends_of fun hon hopened hreach => ?_
  mvcgen [typeAfter] with (simp_all <;> omega)

/-- Operators after an operand give something in order. Each round keeps that. -/
@[spec] theorem operations_spec {operand : Expr} (level start : Nat) :
    Extends c₀ start operand (r.operations level start operand) := by
  refine ensures_iff.2 ?_
  rintro scope result last hrun hon hopened hreach
  have hloop := loop_invariant
    (fun n (state : Expr) => Opened state ∧ reach state ≤ n ∧
      Starts (min start operand.layout.span.start) state)
    (fun n e => Opened e ∧ reach e ≤ n ∧ Starts (min start operand.layout.span.start) e)
    ?_ hrun hon ⟨hopened, hreach, by simp⟩
  · exact ⟨⟨hloop.1, hloop.2.1, hloop.2.2.1⟩, hloop.2.2.2⟩
  · clear hrun hon hopened hreach
    rintro n state ⟨hopened, hreach, hstarts⟩
    mvcgen with (simp_all +zetaDelta; grind)

/-- An operation is in order. -/
@[spec] theorem operation_spec (level : Nat) : Grammar.Sound c₀ (r.operation level) := by
  refine sound_of fun n => ?_
  mvcgen [operation] with (simp_all +zetaDelta <;> omega)

/-- A `yield` is in order. -/
@[spec] theorem yielded_spec : Grammar.Sound c₀ r.yielded := by
  refine sound_of fun n => ?_
  mvcgen [yielded] with (simp_all <;> omega)

/-- A conditional expression is in order if its test is. -/
@[spec] theorem branches_spec {test : Expr} (start : Nat) :
    Extends c₀ start test (r.branches start test) := by
  refine extends_of fun hon hopened hreach => ?_
  mvcgen [branches] with (simp_all; omega)

/-- An expression without commas is in order. -/
@[spec] theorem assigned_spec : Grammar.Sound c₀ r.assigned := by
  refine sound_of fun n => ?_
  mvcgen [assigned] with (simp_all <;> omega)

end Rules

end MarkupCompiler.Grammar
