import Mathlib
import MarkupCompiler.Proofs.LeadingTokens
import MarkupCompiler.Proofs.StatementSpec

/-!
# The left end of an expression

The text of an expression begins with a brace exactly if an object literal or object pattern stands
at its left end (`Expr.opensObject`). What this takes of the source (`Expr.LedIn`) holds of every
expression that the grammar reads: each parser of expressions starts from a token that has just been
read, and what it gives is led by that token (`Rules.Leading`). As the rules are tied together by
depth, so is this (`Rules.bounded_leading`).

Two things are told apart. An operand (`OperandFrom`) starts where its parser did. Of an expression
with operators (`LedFrom`) this is known only if it can be assigned to, since the parentheses around
a target are no part of the tree: `({a: 1}.a)++` starts with a parenthesis, but its target with a
brace.
-/

namespace MarkupCompiler

open Syntax Grammar Text

namespace Syntax

/-! ## What stands at the left end -/

/-- Whether what a type says about an expression is written before it. -/
def TypeMark.isBefore : TypeMark → Bool
  | .assertion _ => true
  | _ => false

/-- The type arguments that are written after an expression. -/
def TypeMark.arguments? : TypeMark → Option Span
  | .instantiation arguments => some arguments
  | _ => none

/-- Whether an object literal or object pattern stands at the left end of an expression. What is in
parentheses does not count, but those around a target are no part of the tree. -/
def Expr.opensObject : Expr → Bool
  | .object _ _ => true
  | .assign _ _ e _ | .binary _ _ e _ | .conditional _ e _ _ | .sequence _ (e :: _)
  | .call _ e _ _ _ | .tagged _ e _ _ _ | .chain _ e | .member _ e _ _ | .index _ e _ _ =>
    e.opensObject
  | .update _ _ isBefore target => !isBefore && target.opensObject
  | .typed _ mark inner => !mark.isBefore && inner.opensObject
  | _ => false

/-- Type arguments do not start at a brace of the source. -/
def TypeArgumentsIn (source : List Char) (types : Option Span) : Prop :=
  ∀ span ∈ types, braceAt source span.start = false

/-- A target starts at a brace of the source exactly if it begins with an object, and then it is not
empty. -/
@[mk_iff] structure Expr.TargetIn (source : List Char) (target : Expr) : Prop where
  brace : braceAt source target.span.start = target.opensObject
  nonempty : target.opensObject = true → target.span.start < target.span.stop

/-- A function does not start at a brace of the source, and starts before its body. -/
structure FunctionIn (source : List Char) (span : Span) (body : Body) : Prop where
  brace : braceAt source span.start = false
  head : ∀ start, body.start? = some start → span.start < start

/-- The source has a brace at the left end of an expression exactly where the expression says so. -/
def Expr.LedIn (source : List Char) : Expr → Prop
  | .literal span _ | .classExpr span _ | .importCall span _ _ _ =>
    braceAt source span.start = false
  | .arrow span _ _ _ body | .function span _ _ _ body => FunctionIn source span body
  | .ident _ name | .metaProperty _ name _ => opensBrace name.toList = false
  | .assign _ _ target _ => target.TargetIn source
  | .update _ _ isBefore target => isBefore = false → target.TargetIn source
  | .binary _ _ e _ | .conditional _ e _ _ | .sequence _ (e :: _) | .chain _ e | .member _ e _ _
  | .index _ e _ _ => e.LedIn source
  | .call _ e types _ _ | .tagged _ e types _ _ => e.LedIn source ∧ TypeArgumentsIn source types
  | .typed _ mark inner =>
    mark.isBefore = false → inner.LedIn source ∧ TypeArgumentsIn source mark.arguments?
  | _ => True

/-- A place can be assigned to. -/
theorem Expr.isTarget_of_isPlace {e : Expr} (h : e.isPlace = true) : e.isTarget false = true := by
  cases e with
  | array | object | assign => cases h
  | _ => exact h

end Syntax

namespace Grammar

open Std.Do

set_option mvcgen.warning false

/-! ## Specifications -/

/-- An expression that was read from one offset up to another begins with a brace exactly if one
stands at the first. This holds of the expression and, if it is a target, of what is in its
parentheses. -/
@[mk_iff] structure PlacedFrom [Source] (start stop : Nat) (e : Expr) : Prop where
  brace : braceAt Source.text start = e.opensObject
  whole : e.TargetIn Source.text
  inner : e.isTarget false = true → e.unparenthesized.TargetIn Source.text
  passed : e.opensObject = true → start < stop

/-- An expression that was read has at its left end what stands there, and is placed like a target
if it may become one. -/
@[mk_iff] structure LedFrom [Source] (start stop : Nat) (e : Expr) : Prop where
  led : e.LedIn Source.text
  target : e.isTarget false = true → PlacedFrom start stop e

/-- An operand that was read has at its left end what stands there. -/
@[mk_iff] structure OperandFrom [Source] (start stop : Nat) (e : Expr) : Prop extends
    PlacedFrom start stop e where
  led : e.LedIn Source.text

/-- A sound parser whose result is led by the token that it starts from. -/
abbrev Leads [Source] (P : Nat → Nat → Expr → Prop) (c₀ : Cursor) (p : Parser Expr) : Prop :=
  Ensures c₀ p fun e cursor => c₀.On Source.text →
    (Given c₀.lastStop e cursor ∧ Starts c₀.lastStop e) ∧
      (c₀.Fresh → P c₀.token.span.start cursor.lastStop e)

/-- A parser of operands that do not begin with a brace. -/
abbrev LeadsApart [Source] (c₀ : Cursor) (p : Parser Expr) : Prop :=
  Ensures c₀ p fun e cursor => braceAt Source.text c₀.token.span.start = false →
    OperandFrom c₀.token.span.start cursor.lastStop e

/-- A parser that goes on from an expression that was read from an offset on. -/
abbrev LeadsOn [Source] (P : Nat → Nat → Expr → Prop) (c₀ : Cursor) (start : Nat) (e : Expr)
    (p : Parser Expr) : Prop :=
  Ensures c₀ p fun a cursor => c₀.On Source.text → P start c₀.lastStop e →
    Kept c₀.lastStop cursor ∧ P start cursor.lastStop a

section

variable {α : Type} {c₀ : Cursor}

/-- Two things that are said of a parser can be said together. -/
theorem triple_and {p : Parser α} {Q R : α → Cursor → Prop}
    (hQ : Ensures c₀ p Q) (hR : Ensures c₀ p R) :
    Ensures c₀ p fun a cursor => Q a cursor ∧ R a cursor :=
  ensures_iff.2 fun scope a next hrun =>
    ⟨ensures_iff.1 hQ scope a next hrun, ensures_iff.1 hR scope a next hrun⟩

/-- Of some parsers nothing has to be known. -/
theorem triple_true (c₀ : Cursor) (p : Parser α) : Ensures c₀ p fun _ _ => True :=
  ensures_iff.2 fun _ _ _ _ => trivial

/-- What a parser tells is told without moving the cursor if it looks ahead. -/
theorem lookAhead_spec_of {p : Parser α} {Q : α → Prop}
    (h : Ensures c₀ p fun a _ => Q a) :
    Ensures c₀ (lookAhead p) fun a cursor => cursor = c₀ ∧ Q a := by
  mvcgen [lookAhead, -lookAhead_spec, h]

variable [Source]

/-- What is said of a sound parser where its first token has just been read. -/
theorem leads_of {P : Nat → Nat → Expr → Prop} {p : Parser Expr} (hsound : Sound c₀ p)
    (h : c₀.On Source.text → c₀.Fresh → Ensures c₀ p fun e cursor =>
      P c₀.token.span.start cursor.lastStop e) : Leads P c₀ p :=
  ensures_iff.2 fun scope e next hrun hon =>
    ⟨ensures_iff.1 hsound scope e next hrun hon, fun hfresh =>
      ensures_iff.1 (h hon hfresh) scope e next hrun⟩

end

/-! ## Tokens -/

section

variable {α : Type} {c₀ : Cursor}

/-- Where the cursor stands on the next token, the one before it has been passed. -/
theorem lastStop_next (cursor : Cursor) : cursor.next.lastStop = cursor.token.span.stop := rfl

/-- A keyword is a word. -/
theorem isKeyword_word {token : Token} {keyword : Keyword} (h : isKeyword token keyword = true) :
    ∃ name, token.kind = .word name (some keyword) := by
  unfold isKeyword at h
  split at h
  · rename_i name k hkind
    exact ⟨name, hkind.trans (by rw [eq_of_beq h])⟩
  · cases h

/-- The name of a variable is a word. -/
theorem isIdentifier_word (token : Token) : Ensures c₀ (isIdentifier token) fun a cursor =>
    cursor = c₀ ∧ (a = true → ∃ name keyword, token.kind = .word name keyword) := by
  mvcgen [isIdentifier, -isIdentifier_spec] with simp_all

/-- A keyword that is looked for is a word. -/
theorem atKeyword?_word (keyword : Keyword) : Ensures c₀ (atKeyword? keyword) fun a cursor =>
    cursor = c₀ ∧ (a = true → ∃ name, c₀.token.kind = .word name (some keyword)) := by
  refine ensures_iff.2 ?_
  rintro scope _ _ ⟨⟩
  exact ⟨rfl, isKeyword_word⟩

variable [Source]

/-- Passing a token leaves the cursor on the next one. -/
theorem advance_next : Ensures c₀ advance fun _ cursor => cursor = c₀.next ∧
      (c₀.On Source.text → c₀.lastStop ≤ c₀.token.span.stop) := by
  refine ensures_iff.2 ?_
  rintro scope _ _ ⟨⟩
  exact ⟨rfl, fun hon => hon.order.1.trans hon.order.2⟩

/-- So does passing a punctuator, which has been there. -/
theorem expect_next (p : Punct) : Ensures c₀ (expect p) fun _ cursor => cursor = c₀.next ∧
    c₀.token.kind = .punct p ∧ (c₀.On Source.text → c₀.lastStop ≤ c₀.token.span.stop) := by
  mvcgen [expect, advance_next, -advance_spec, -expect_spec] with simp_all

/-- So does passing a keyword. -/
theorem expectKeyword_next (keyword : Keyword) :
    Ensures c₀ (expectKeyword keyword) fun _ cursor => cursor = c₀.next ∧
      (c₀.On Source.text → c₀.lastStop ≤ c₀.token.span.stop) := by
  mvcgen [expectKeyword, advance_next, -advance_spec, -expectKeyword_spec] with simp_all

/-- So does passing a name. -/
theorem identifier_next : Ensures c₀ identifier fun _ cursor => cursor = c₀.next ∧
      (c₀.On Source.text → c₀.lastStop ≤ c₀.token.span.stop) := by
  mvcgen [identifier, -identifier_spec, advance_next, -advance_spec] with simp_all

/-- A parser that leaves the cursor where it is, or passes the token there. -/
abbrev MayPass (c₀ : Cursor) (p : Parser α) : Prop :=
  Ensures c₀ p fun _ cursor => c₀.On Source.text → Kept c₀.lastStop cursor ∧
    (cursor = c₀ ∨ c₀.token.span.stop ≤ cursor.lastStop)

/-- A keyword that may be there is passed if it is. -/
theorem eatKeyword?_mayPass (keyword : Keyword) : MayPass c₀ (eatKeyword? keyword) := by
  refine triple_imp fun hon => ?_
  mvcgen [eatKeyword?, advance_next, -advance_spec, -eatKeyword?_spec] with
    simp_all [hon.next, lastStop_next]

end

variable [Source] {c₀ : Cursor}

/-! ## Functions -/

/-- A function that starts at an offset, and whose body does not start before another. -/
def FunctionFrom (start n : Nat) : Expr → Prop
  | .arrow span _ _ _ body | .function span _ _ _ body =>
    span.start = start ∧ ∀ first, body.start? = some first → n ≤ first
  | _ => False

variable {e : Expr}

omit [Source] in
/-- What is known of where a body starts is known of any offset before. -/
theorem FunctionFrom.mono {start m n : Nat} (h : FunctionFrom start n e) (hle : m ≤ n) :
    FunctionFrom start m e := by
  cases e with
  | arrow | function => exact ⟨h.1, fun first hfirst => hle.trans (h.2 first hfirst)⟩
  | _ => exact h

/-- An operand that does not begin with a brace and cannot be assigned to. -/
theorem OperandFrom.apart {start stop : Nat} {e : Expr} (hstart : e.span.start = start)
    (hbrace : braceAt Source.text start = false) (hopens : e.opensObject = false)
    (htarget : e.isTarget false = false) (hled : e.LedIn Source.text) :
    OperandFrom start stop e := by
  have hin : e.TargetIn Source.text :=
    ⟨(hstart ▸ hbrace).trans hopens.symm, fun he => absurd (hopens ▸ he) Bool.false_ne_true⟩
  exact
    { brace := hbrace.trans hopens.symm
      whole := hin
      inner := fun he => absurd (htarget ▸ he) Bool.false_ne_true
      passed := fun he => absurd (hopens ▸ he) Bool.false_ne_true
      led := hled }

/-- A function whose head takes up some text is an operand that does not begin with a brace. -/
theorem FunctionFrom.operandFrom {start n stop : Nat} (h : FunctionFrom start n e) (hlt : start < n)
    (hbrace : braceAt Source.text start = false) : OperandFrom start stop e := by
  cases e with
  | arrow span _ _ _ body | function span _ _ _ body =>
    obtain ⟨rfl, hbody⟩ := h
    have hin : FunctionIn Source.text span body :=
      ⟨hbrace, fun first hfirst => hlt.trans_le (hbody first hfirst)⟩
    exact .apart rfl hbrace rfl rfl hin
  | _ => exact h.elim

section

attribute [local simp] FunctionFrom Body.start? lastStop_next Cursor.On.next

omit [Source] in
/-- What is said of where a body starts. -/
@[local simp] theorem starts_body_iff {n : Nat} {body : Body} :
    Starts n body ↔ ∀ first, body.start? = some first → n ≤ first := Iff.rfl

attribute [local simp ←] Expr.span_layout

namespace Rules

variable {r : Rules} (hr : r.Sound)
include hr

/-- A function has its body after the cursor that its parameters are read from. -/
theorem functionRest_from (start : Nat) (kind : FunctionKind) :
    Ensures c₀ (r.functionRest start kind) fun e _ => c₀.On Source.text →
      FunctionFrom start c₀.lastStop e := by
  refine triple_imp fun hon => ?_
  mvcgen [functionRest, -functionRest_spec] with (simp_all <;> grind)

/-- An arrow function has its body after its head. -/
theorem arrowRest_from (head : ArrowHead) : Ensures c₀ (r.arrowRest head) fun e cursor =>
    c₀.On Source.text → Kept c₀.lastStop cursor ∧ FunctionFrom head.start c₀.lastStop e := by
  refine triple_imp fun hon => ?_
  mvcgen [arrowRest, -arrowRest_spec] with (simp_all; grind)

end Rules

end

section

attribute [local simp] lastStop_next Cursor.On.next

namespace Rules

variable {r : Rules} (hr : r.Sound)
include hr

/-- A function from the word `function` on has its body after that word. -/
theorem functionLike_from (start : Nat) (isAsync : Bool) :
    Ensures c₀ (r.functionLike start isAsync) fun e _ => c₀.On Source.text →
      FunctionFrom start c₀.token.span.stop e := by
  refine triple_imp fun hon => ?_
  mvcgen [functionLike, -functionLike_spec, expectKeyword_next, -expectKeyword_spec,
    functionRest_from, -functionRest_spec] with simp_all
  all_goals exact fun h => h.mono (by omega)

/-- Parameters pass the token at the cursor. -/
theorem parameterList_passes : Ensures c₀ r.parameterList fun _ cursor => c₀.On Source.text →
    c₀.token.span.stop ≤ cursor.lastStop := by
  refine triple_imp fun hon => ?_
  mvcgen [parameterList, -parameterList_spec, expect_next, -expect_spec] with (simp_all <;> omega)

/-- Type parameters are passed if they are there. -/
theorem typeParameters_mayPass : MayPass c₀ r.typeParameters := by
  refine triple_imp fun hon => ?_
  mvcgen [typeParameters, -typeParameters_spec, advance_next, -advance_spec] with
    (simp_all <;> omega)

end Rules

end

namespace Rules

/-- What is asked of the rules beside their being sound. An expression is led by the token that it
starts from, parameters pass theirs, and so does a class, which does not begin with a brace. -/
structure Leading (r : Rules) : Prop where
  assignment : ∀ {c₀}, Leads LedFrom c₀ r.assignment
  binary : ∀ {c₀} level, Leads LedFrom c₀ (r.binary level)
  unary : ∀ {c₀}, Leads LedFrom c₀ r.unary
  leftHandSide : ∀ {c₀}, Leads OperandFrom c₀ r.leftHandSide
  params : ∀ {c₀}, Ensures c₀ r.params fun _ cursor => c₀.On Source.text →
    c₀.token.span.stop ≤ cursor.lastStop
  classLike : ∀ {c₀}, LeadsApart c₀ r.classLike

end Rules

/-! ## Arrow functions -/

section

attribute [local simp] lastStop_next Cursor.On.next

/-- An arrow function that is looked for starts where the cursor was; if there is none the cursor
stays. -/
abbrev FindsArrow (c₀ : Cursor) (p : Parser (Option Expr)) : Prop :=
  Ensures c₀ p fun e? cursor => (e? = none → cursor = c₀) ∧ (c₀.On Source.text → ∀ e, e? = some e →
    FunctionFrom c₀.token.span.start c₀.token.span.stop e)

/-- What may be the head of an arrow function does not begin with a brace. -/
theorem arrowVerdict_head : Ensures c₀ arrowVerdict fun verdict cursor => cursor = c₀ ∧
      (verdict ≠ .no → c₀.token.kind.isHead = true) := by
  refine lookAhead_spec_of ?_
  have hparens := fun c₀ => triple_true c₀ verdictInParens
  have hangles := fun c₀ => triple_true c₀ verdictInAngles
  mvcgen [hparens, hangles, atKeyword?_word, -atKeyword?_spec, advance_next, -advance_spec]
  all_goals simp_all
  all_goals grind [TokenKind.isHead_word]

namespace Rules

variable {r : Rules} (hr : r.Sound) (hl : r.Leading)

include hr in
/-- An arrow function with a plain name for its parameter begins with a word. -/
theorem simpleArrow?_finds : Ensures c₀ r.simpleArrow? fun e? cursor => (e? = none → cursor = c₀) ∧
    (c₀.On Source.text → ∀ e, e? = some e →
      c₀.token.kind.isHead = true ∧ FunctionFrom c₀.token.span.start c₀.token.span.stop e) := by
  mvcgen [simpleArrow?, -simpleArrow?_spec, arrowRest_from, -arrowRest_spec, identifier_next,
    -identifier_spec, isIdentifier_word, -isIdentifier_spec, advance_next, -advance_spec]
  all_goals simp_all
  all_goals grind [FunctionFrom.mono, Cursor.On.next, isKeyword_word, TokenKind.isHead_word]

include hr hl

/-- The head of an arrow function starts at the cursor and passes its token. -/
theorem arrowHead_passes : Ensures c₀ r.arrowHead fun head cursor =>
    head.start = c₀.token.span.start ∧ (c₀.On Source.text →
      Kept c₀.lastStop cursor ∧ c₀.token.span.stop ≤ cursor.lastStop) := by
  have hparams := fun c₀ => triple_and (@Sound.params _ r hr c₀) (@Leading.params _ r hl c₀)
  mvcgen [arrowHead, -arrowHead_spec, eatKeyword?_mayPass, -eatKeyword?_spec, hparams,
    -Sound.params, typeParameters_mayPass, -typeParameters_spec]
  simp_all
  clear hparams
  grind

/-- An arrow function that is tried starts at the cursor. -/
theorem possibleArrow_finds : FindsArrow c₀ r.possibleArrow := by
  have hhead := fun c₀ => attempt_spec_of (@arrowHead_passes _ c₀ r hr hl)
  have htrial := fun c₀ head => attempt_spec_of (@arrowRest_from _ c₀ r hr head)
  mvcgen [possibleArrow, -possibleArrow_spec, hhead, arrowRest_from, htrial, -attempt_spec,
    -arrowRest_spec]
  all_goals simp_all
  all_goals clear hhead htrial
  all_goals grind [FunctionFrom.mono]

/-- An arrow function does not begin with a brace. -/
theorem arrow?_finds : Ensures c₀ r.arrow? fun e? cursor => (e? = none → cursor = c₀) ∧
    (c₀.On Source.text → c₀.Fresh →
      ∀ e, e? = some e → OperandFrom c₀.token.span.start cursor.lastStop e) := by
  mvcgen [arrow?, -arrow?_spec, arrowVerdict_head, -arrowVerdict_spec, arrowHead_passes,
    -arrowHead_spec, arrowRest_from, -arrowRest_spec, possibleArrow_finds, -possibleArrow_spec,
    simpleArrow?_finds, -simpleArrow?_spec]
  all_goals simp_all
  all_goals grind [FunctionFrom.mono, FunctionFrom.operandFrom, Cursor.Fresh.head]

end Rules

end

/-! ## Operands -/

section

attribute [local simp ←] Expr.span_layout

attribute [local simp] Expr.LedIn Expr.opensObject Expr.unparenthesized Expr.isTarget Expr.isPlace
  ledFrom_iff placedFrom_iff operandFrom_iff Expr.targetIn_iff lastStop_next Cursor.On.next
  Cursor.fresh_next

attribute [local simp] Expr.layout Item.layouts Property.layouts Body.layouts Stmt.layout
  Markup.layout Expr.IsSpelled Item.IsSpelled Property.IsSpelled Body.IsSpelled Stmt.IsSpelled
  Markup.IsSpelled

/-- Markup does not begin with a brace. -/
theorem braceAt_of_markup {m : Markup} (h : m.layout.Opened Source.text) :
    braceAt Source.text m.layout.span.start = false :=
  ((h m.layout m.layout.mem_nodes_self).opens m.isMarkup_layout).braceAt

variable {span : Span} {stop : Nat}

/-- A literal does not begin with a brace if none stands where it starts. -/
theorem operandFrom_literal (value : Literal) (h : braceAt Source.text span.start = false) :
    OperandFrom span.start stop (.literal span value) :=
  .apart rfl h rfl rfl h

/-- Neither does `this`. -/
theorem operandFrom_thisRef (h : braceAt Source.text span.start = false) :
    OperandFrom span.start stop (.thisRef span) :=
  .apart rfl h rfl rfl trivial

/-- Neither does `super`. -/
theorem operandFrom_superRef (h : braceAt Source.text span.start = false) :
    OperandFrom span.start stop (.superRef span) :=
  .apart rfl h rfl rfl trivial

/-- A name does not begin with a brace. -/
theorem identifier_leads : Leads OperandFrom c₀ identifier := by
  refine leads_of identifier_spec fun hon hfresh => ?_
  have hhead := hfresh.head hon
  have hword := @Cursor.Fresh.word _ hfresh
  mvcgen [identifier, -identifier_spec] with simp_all

/-- Neither does a regular expression. -/
theorem regexp_leads : LeadsApart c₀ regexp := by
  mvcgen [regexp, -regexp_spec] with simp_all +zetaDelta

namespace Rules

variable {r : Rules} (hr : r.Sound)
include hr

/-- A template literal does not begin with a brace. -/
theorem template_leads : LeadsApart c₀ r.template := by
  mvcgen [template, -template_spec] with simp_all

/-- Neither does an array literal. -/
theorem arrayLiteral_leads : LeadsApart c₀ r.arrayLiteral := by
  mvcgen [arrayLiteral, -arrayLiteral_spec] with simp_all

/-- Neither does an import. -/
theorem importExpr_leads : LeadsApart c₀ r.importExpr := by
  mvcgen [importExpr, -importExpr_spec] with simp_all [opensBrace]

/-- Neither does a construction. -/
theorem construct_leads : LeadsApart c₀ r.construct := by
  mvcgen [construct, -construct_spec] with simp_all [opensBrace]

/-- Neither does a class. -/
theorem classFrom_leads : LeadsApart c₀ r.classFrom := by
  mvcgen [classFrom, -classFrom_spec] with simp_all

/-- An object literal begins with a brace. -/
theorem objectLiteral_leads : Leads OperandFrom c₀ r.objectLiteral := by
  refine leads_of (objectLiteral_spec hr) fun hon hfresh => ?_
  have hopens := hfresh.braceAt hon
  have hlt := hfresh.lt
  mvcgen [objectLiteral, -objectLiteral_spec, expect_next, -expect_spec] with (simp_all <;> omega)

variable (hl : r.Leading)
include hl

omit hl in
/-- The parts of an expression after the first comma are in order. -/
theorem parts_spec : Grammar.Sound c₀ (many (at? .comma) (do advance; r.assignment)) := by
  refine sound_of fun n => ?_
  mvcgen with (simp_all <;> omega)

/-- An expression with commas is led like the first of its parts. -/
theorem expression_leads : Leads LedFrom c₀ r.expression := by
  refine leads_of (expression_spec hr) fun hon hfresh => ?_
  mvcgen [expression, -expression_spec, parts_spec, -many_spec, Leading.assignment,
    -Sound.assignment] with simp_all

/-- What is in parentheses is led by the token after the first. -/
theorem parenthesized_leads : Leads OperandFrom c₀ r.parenthesized := by
  refine leads_of (parenthesized_spec hr) fun hon hfresh => ?_
  have hhead := hfresh.head hon
  mvcgen [parenthesized, -parenthesized_spec, expect_next, -expect_spec, inner, -inner_spec,
    expression_leads, -expression_spec] with simp_all [Expr.isTarget_of_isPlace]

omit hl in
/-- Markup as an expression does not begin with a brace. -/
theorem markupExpr_leads : Ensures c₀ r.markupExpr fun e cursor => c₀.On Source.text →
    c₀.token.kind = .punct .lt → braceAt Source.text c₀.token.span.start = false →
        OperandFrom c₀.token.span.start cursor.lastStop e := by
  refine triple_imp fun hon => triple_imp fun hkind => ?_
  mvcgen [markupExpr, -markupExpr_spec] with simp_all [braceAt_of_markup]

end Rules

end

namespace Rules

variable {r : Rules} (hr : r.Sound) (hl : r.Leading)
include hr hl

/-- An operand is led by its first token. -/
theorem primary_leads : Leads OperandFrom c₀ r.primary := by
  refine leads_of (primary_spec hr) fun hon hfresh => ?_
  have hplace := hfresh.apart hon
  have hhead := hfresh.head hon
  have hnext := hon.next.order
  mvcgen [primary, -primary_spec, identifier_leads, -identifier_spec, functionLike_from,
    -functionLike_spec, Leading.classLike, -Sound.classLike, construct_leads, -construct_spec,
    importExpr_leads, -importExpr_spec, parenthesized_leads, -parenthesized_spec,
    arrayLiteral_leads, -arrayLiteral_spec, objectLiteral_leads, -objectLiteral_spec,
    template_leads, -template_spec, regexp_leads, -regexp_spec, markupExpr_leads, -markupExpr_spec,
    advance_next, -advance_spec]
  all_goals simp_all [TokenKind.isApart, operandFrom_literal, operandFrom_thisRef,
    operandFrom_superRef, lastStop_next, Cursor.On.next]
  -- Left are the two ways in which a function begins.
  all_goals
    intro h
    exact h.operandFrom (by omega) (hfresh.apart hon (by simp [*, TokenKind.isApart]))

end Rules

/-! ## What goes on from an expression -/

section

variable {start n stop : Nat} {e : Expr}

/-- An expression stays placed as more is read. -/
theorem PlacedFrom.mono (h : PlacedFrom start n e) (hle : n ≤ stop) : PlacedFrom start stop e :=
  { h with passed := fun hopens => (h.passed hopens).trans_le hle }

variable {mark : TypeMark}

/-- A type after an expression does not change how it begins. -/
theorem PlacedFrom.typed (h : PlacedFrom start n e) (hmark : mark.isBefore = false)
    (hle : n ≤ stop) : PlacedFrom start stop (.typed ⟨start, stop⟩ mark e) := by
  have hopens : (Expr.typed ⟨start, stop⟩ mark e).opensObject = e.opensObject := by
    rw [Expr.opensObject, hmark]
    rfl
  have hpassed : e.opensObject = true → start < stop := fun he => (h.passed he).trans_le hle
  have hin : (Expr.typed ⟨start, stop⟩ mark e).TargetIn Source.text :=
    ⟨h.brace.trans hopens.symm, fun he => hpassed (hopens ▸ he)⟩
  exact ⟨h.brace.trans hopens.symm, hin, fun _ => hin, fun he => hpassed (hopens ▸ he)⟩

/-- An operand stays one as more is read. -/
theorem OperandFrom.mono (h : OperandFrom start n e) (hle : n ≤ stop) : OperandFrom start stop e :=
  ⟨h.toPlacedFrom.mono hle, h.led⟩

/-- An operand with a type after it is an operand. -/
theorem OperandFrom.typed (h : OperandFrom start n e) (hmark : mark.isBefore = false)
    (htypes : TypeArgumentsIn Source.text mark.arguments?) (hle : n ≤ stop) :
    OperandFrom start stop (.typed ⟨start, stop⟩ mark e) :=
  ⟨h.toPlacedFrom.typed hmark hle, fun _ => ⟨h.led, htypes⟩⟩

/-- A chain begins like what is in it. -/
theorem OperandFrom.closeChain {inChain : Bool} (h : OperandFrom start stop e) :
    OperandFrom start stop (if inChain = true then Grammar.closeChain e else e) := by
  unfold Grammar.closeChain
  split
  · split
    · exact ⟨⟨h.brace, ⟨h.whole.brace, h.whole.nonempty⟩, nofun, h.passed⟩, h.led⟩
    · exact ⟨⟨h.brace, ⟨h.whole.brace, h.whole.nonempty⟩, nofun, h.passed⟩, h.led⟩
  · exact h

/-- An operand is led by what stands there. -/
theorem OperandFrom.ledFrom (h : OperandFrom start stop e) : LedFrom start stop e :=
  ⟨h.led, fun _ => h.toPlacedFrom⟩

/-- An expression stays led as more is read. -/
theorem LedFrom.mono (h : LedFrom start n e) (hle : n ≤ stop) : LedFrom start stop e :=
  ⟨h.led, fun htarget => (h.target htarget).mono hle⟩

/-- A type after an expression does not change what it is led by. -/
theorem LedFrom.typed (h : LedFrom start n e) (hmark : mark.isBefore = false)
    (htypes : TypeArgumentsIn Source.text mark.arguments?) (hle : n ≤ stop) :
    LedFrom start stop (.typed ⟨start, stop⟩ mark e) :=
  ⟨fun _ => ⟨h.led, htypes⟩, fun htarget => by
    have hplace : e.isPlace = true := by
      cases mark with
      | instantiation => cases htarget
      | _ => exact htarget
    exact (h.target (Expr.isTarget_of_isPlace hplace)).typed hmark hle⟩

/-- A test for a private name is not led by an object. -/
theorem LedFrom.hasPrivate {name : String} {right : Expr} {span : Span} :
    LedFrom start stop (.hasPrivate span name right) :=
  ⟨trivial, nofun⟩

/-- An operation is led like its left operand. -/
theorem LedFrom.binary {op : BinaryOp} {right : Expr} {span : Span} (h : LedFrom start n e) :
    LedFrom start stop (.binary span op e right) :=
  ⟨h.led, nofun⟩

/-- An assignment begins like its target. -/
theorem LedFrom.assign {span : Span} {op : AssignOp} {value : Expr} (h : LedFrom start n e)
    (hcan : Rules.canAssign op e = true) :
    LedFrom start stop (.assign span op e.unparenthesized value) := by
  have htarget : e.isTarget false = true := by
    unfold Rules.canAssign at hcan
    split at hcan
    · exact hcan
    · exact Expr.isTarget_of_isPlace hcan
  refine ⟨(h.target htarget).inner htarget, fun hassign => ?_⟩
  cases op <;> cases hassign

end

/-! ## Members and calls -/

section

attribute [local simp ←] Expr.span_layout

attribute [local simp] Expr.LedIn Expr.opensObject Expr.unparenthesized Expr.isTarget Expr.isPlace
  ledFrom_iff placedFrom_iff operandFrom_iff Expr.targetIn_iff lastStop_next Cursor.On.next
  Cursor.fresh_next Expr.layout TypeMark.isBefore TypeMark.arguments? TypeArgumentsIn

namespace Rules

variable {owner : Expr}

/-- A member begins like its object. -/
theorem memberAfterDot_leads (start : Nat) (isOptional : Bool) :
    LeadsOn OperandFrom c₀ start owner (memberAfterDot start owner isOptional) := by
  refine triple_imp fun hon => triple_imp fun hoperand => ?_
  mvcgen [memberAfterDot, -memberAfterDot_spec] with (simp_all <;> grind)

variable {r : Rules} (hr : r.Sound)
include hr

/-- A member in brackets begins like its object. -/
theorem indexed_leads (start : Nat) (isOptional : Bool) :
    LeadsOn OperandFrom c₀ start owner (r.indexed start owner isOptional) := by
  refine triple_imp fun hon => triple_imp fun hoperand => ?_
  mvcgen [indexed, -indexed_spec] with (simp_all; grind)

/-- A call begins like the function. -/
theorem called_leads {callee : Expr} (start : Nat) :
    LeadsOn OperandFrom c₀ start callee (r.called start callee) := by
  refine triple_imp fun hon => triple_imp fun hoperand => ?_
  mvcgen [called, -called_spec] with (simp_all; grind)

/-- A template literal with a tag begins like the tag. -/
theorem taggedTemplate_leads {tag : Expr} (start : Nat) :
    LeadsOn OperandFrom c₀ start tag (r.taggedTemplate start tag) := by
  refine triple_imp fun hon => triple_imp fun hoperand => ?_
  mvcgen [taggedTemplate, -taggedTemplate_spec] with (simp_all; grind)

/-- Type arguments begin with an angle bracket. -/
theorem expressionTypeArguments_apart :
    Ensures c₀ r.expressionTypeArguments fun span cursor => c₀.On Source.text →
      Kept c₀.lastStop cursor ∧ braceAt Source.text span.start = false := by
  refine triple_imp fun hon => ?_
  mvcgen [expressionTypeArguments, -expressionTypeArguments_spec, expect_next, -expect_spec] with
    (simp_all <;> grind [Cursor.On.braceAt_lt])

/-- An optional link begins like its object. -/
theorem optionalLink_leads (start : Nat) :
    LeadsOn OperandFrom c₀ start owner (r.optionalLink start owner) := by
  refine triple_imp fun hon => triple_imp fun hoperand => ?_
  mvcgen [optionalLink, -optionalLink_spec, expressionTypeArguments_apart,
    -expressionTypeArguments_spec, indexed_leads, -indexed_spec, memberAfterDot_leads,
    -memberAfterDot_spec] with (simp_all <;> grind)

end Rules

end

namespace Rules

variable {r : Rules} (hr : r.Sound)
include hr

/-- Members and calls begin like the operand. -/
theorem links_leads {operand : Expr} (calls : Bool) (start : Nat) :
    LeadsOn OperandFrom c₀ start operand (r.links calls start operand) := by
  have htypes := fun c₀ => attempt_spec_of (@expressionTypeArguments_apart _ c₀ r hr)
  refine ensures_iff.2 ?_
  rintro scope result last hrun hon hoperand
  -- Each round leaves an operand that starts where the first did.
  refine loop_invariant (fun n (state : Expr × Bool) => OperandFrom start n state.1)
    (OperandFrom start) ?_ hrun hon hoperand
  clear hrun hon hoperand
  intro n state hstate
  have hclosed := @OperandFrom.closeChain _ start n state.1 state.2 hstate
  mvcgen [htypes, -attempt_spec, indexed_leads, -indexed_spec, called_leads, -called_spec,
    taggedTemplate_leads, -taggedTemplate_spec, optionalLink_leads, -optionalLink_spec,
    memberAfterDot_leads, -memberAfterDot_spec]
  all_goals clear htypes
  all_goals simp_all +zetaDelta
  all_goals grind [OperandFrom.mono, OperandFrom.typed, TypeMark.isBefore, TypeMark.arguments?,
    TypeArgumentsIn]

variable (hl : r.Leading)
include hl

/-- An operand with members and calls is led by its first token. -/
theorem memberOrCall_leads : Leads OperandFrom c₀ r.memberOrCall := by
  refine leads_of (memberOrCall_spec hr) fun hon hfresh => ?_
  mvcgen [memberOrCall, -memberOrCall_spec, primary_leads, -primary_spec, links_leads,
    -links_spec] with
    simp_all

end Rules

/-! ## Operators -/

section

attribute [local simp ←] Expr.span_layout

attribute [local simp] Expr.LedIn Expr.opensObject Expr.unparenthesized Expr.isTarget Expr.isPlace
  ledFrom_iff placedFrom_iff Expr.targetIn_iff lastStop_next Cursor.On.next
  Cursor.fresh_next Expr.layout TypeMark.isBefore TypeMark.arguments? TypeArgumentsIn

namespace Rules

variable {r : Rules} (hr : r.Sound) (hl : r.Leading)
include hr hl

/-- So is an operand with an update after it. -/
theorem updated_leads : Leads LedFrom c₀ r.updated := by
  refine leads_of (updated_spec hr) fun hon hfresh => ?_
  have hangle := @Cursor.On.braceAt_lt _ _ hon
  mvcgen [updated, -updated_spec, Leading.leftHandSide, -Sound.leftHandSide, markupExpr_leads,
    -markupExpr_spec] with
    simp_all [operandFrom_iff, Expr.isTarget_of_isPlace]

/-- So is an operand with operators before it. -/
theorem prefixed_leads : Leads LedFrom c₀ r.prefixed := by
  refine leads_of (prefixed_spec hr) fun hon hfresh => ?_
  have hangle := @Cursor.On.braceAt_lt _ _ hon
  mvcgen [prefixed, -prefixed_spec, updated_leads, -updated_spec] with simp_all +zetaDelta

omit hl in
/-- A `yield` is not led by an object. -/
theorem yielded_leads : Ensures c₀ r.yielded fun e cursor =>
    LedFrom c₀.token.span.start cursor.lastStop e := by
  mvcgen [yielded, -yielded_spec] with simp_all

omit hl in
/-- A conditional expression is led like its test. -/
theorem branches_leads {test : Expr} (start : Nat) :
    Ensures c₀ (r.branches start test) fun e cursor => test.LedIn Source.text →
      LedFrom start cursor.lastStop e := by
  mvcgen [branches, -branches_spec] with simp_all

end Rules

end

namespace Rules

variable {r : Rules} (hr : r.Sound) (hl : r.Leading)
include hr hl

omit hl in
/-- Operations are led like their first operand. -/
theorem operations_leads {operand : Expr} (level start : Nat) :
    LeadsOn LedFrom c₀ start operand (r.operations level start operand) := by
  refine ensures_iff.2 ?_
  rintro scope result last hrun hon hoperand
  -- Each round puts what was read before to the left of something.
  refine loop_invariant (LedFrom start) (LedFrom start) ?_ hrun hon hoperand
  clear hrun hon hoperand
  intro n state hstate
  mvcgen [typeAfter, -typeAfter_spec]
  all_goals simp_all +zetaDelta
  all_goals grind [LedFrom.mono, LedFrom.binary, LedFrom.typed, TypeMark.isBefore,
    TypeMark.arguments?, TypeArgumentsIn]

/-- An operation is led by its first token. -/
theorem operation_leads (level : Nat) : Leads LedFrom c₀ (r.operation level) := by
  refine leads_of (operation_spec hr level) fun hon hfresh => ?_
  mvcgen [operation, -operation_spec, Leading.unary, -Sound.unary, operations_leads,
    -operations_spec] with
    simp_all +zetaDelta [LedFrom.hasPrivate]

/-- An expression without commas is led by its first token. -/
theorem assigned_leads : Leads LedFrom c₀ r.assigned := by
  refine leads_of (assigned_spec hr) fun hon hfresh => ?_
  mvcgen [assigned, -assigned_spec, arrow?_finds, -arrow?_spec, Leading.binary, -Sound.binary,
    yielded_leads, -yielded_spec, branches_leads, -branches_spec]
  all_goals simp_all
  all_goals grind [OperandFrom.ledFrom, LedFrom.assign, LedFrom.led]

omit hr hl in
/-- What is asked of the rules holds whatever the depth to which constructs nest. -/
theorem bounded_leading (depth : Nat) : (bounded depth).Leading := by
  induction depth with
  | zero => constructor <;> intros <;> exact (failHere_spec _).triple
  | succ depth ih =>
    have hsound := bounded_sound depth
    exact
      { assignment := assigned_leads hsound ih
        binary := operation_leads hsound ih
        unary := prefixed_leads hsound ih
        leftHandSide := memberOrCall_leads hsound ih
        params := parameterList_passes hsound
        classLike := classFrom_leads hsound }

end Rules

/-! ## Values of attributes -/

/-- A punctuator that is not there is not passed. -/
theorem eat?_stays (p : Punct) : Ensures c₀ (eat? p) fun a cursor => a = false → cursor = c₀ := by
  mvcgen [eat?, -eat?_spec] with simp_all

namespace Rules

variable {r : Rules} (hr : r.Sound) (hl : r.Leading)
include hr hl

/-- An expression in the braces of an attribute is led by the token after the brace. -/
theorem attributeValue_led : Ensures c₀ r.attributeValue fun value _ => c₀.On Source.text →
    ∀ e, value = .expr e → e.LedIn Source.text ∧ e.layout.Opened Source.text := by
  refine triple_imp fun hon => ?_
  -- The token after the brace has just been read, whatever is known of the brace.
  have hnext := hon.next
  have hfresh := c₀.fresh_next
  mvcgen [attributeValue, -attributeValue_spec, advance_next, -advance_spec, eat?_stays, -eat?_spec,
    inner, -inner_spec, expression_leads, -expression_spec]
  all_goals simp_all
  all_goals grind [LedFrom.led]

end Rules

omit [Source] in
/-- An expression that is read as the value of an attribute has at its left end what stands there in
the text, and its parts are in their places. -/
theorem ledIn_of_attributeValue {text : List Char} {depth : Nat} {scope : Scope}
    {cursor next : Cursor} (hon : cursor.On text)
    (hread : (Rules.bounded depth).attributeValue scope cursor = .ok (.expr e, next)) :
    e.LedIn text ∧ e.layout.Opened text := by
  let _ : Source := ⟨text⟩
  have hled := @Rules.attributeValue_led _ cursor _ (Rules.bounded_sound depth)
    (Rules.bounded_leading depth)
  exact ensures_iff.1 hled scope _ _ hread hon e rfl

end Grammar

end MarkupCompiler
