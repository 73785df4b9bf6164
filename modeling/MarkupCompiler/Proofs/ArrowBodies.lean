import MarkupCompiler.Proofs.ItemFunctions
import MarkupCompiler.Proofs.LeadingCode

/-!
# Functions whose body is an expression

A condition is handed to a component as a function, and so is the key of an item to the helper for
lists. What stands after the arrow of such a function is the code of an expression, without
parentheses around it. If that code begins with a brace, the grammar reads a block of statements
there (`hasBlock_of_arrowRest`), and the function does not give the value of the expression.

This happens exactly if an object stands at the left end of the expression
(`arrow_body_opens_block_iff`), as in `object_becomes_block`. Of the expression it is asked that the
grammar reads it as the value of an attribute and, if there is markup in it, that its parts lie in
each other in the source.
-/

namespace MarkupCompiler

open Syntax Grammar Text

/-! ## Bodies that are read -/

namespace Syntax

/-- Whether a body is a block of statements. -/
def Body.isBlock : Body → Bool
  | .block _ _ => true
  | _ => false

/-- Whether an expression is an arrow function whose body is a block of statements. -/
def Expr.hasBlock : Expr → Bool
  | .arrow _ _ _ _ body => body.isBlock
  | _ => false

end Syntax

namespace Grammar

open Std.Do

set_option mvcgen.warning false

section

variable [Source] {c₀ : Cursor}

/-- What stands in the braces of a body is a block. -/
theorem Rules.functionBody_block (r : Rules) : Ensures c₀ r.functionBody fun body _ =>
    body.isBlock = true := by
  have hstatements := fun c₀ => triple_true c₀ r.bodyStatements
  mvcgen [functionBody, -functionBody_spec, hstatements, -bodyStatements_spec]

/-- The body of an arrow function is a block if a brace comes after the arrow. -/
theorem Rules.arrowRest_hasBlock (r : Rules) (head : ArrowHead) :
    Ensures c₀ (r.arrowRest head) fun e _ =>
      e.hasBlock = (c₀.next.token.kind == .punct .lbrace) := by
  have hbody := fun c₀ => @functionBody_block _ c₀ r
  have hvalue := fun c₀ => triple_true c₀ r.assignment
  mvcgen [arrowRest, -arrowRest_spec, expect_next, -expect_spec, hbody, -functionBody_spec, hvalue,
    -Sound.assignment] with simp_all [Expr.hasBlock, Body.isBlock]

end

/-- The token after a blank and a text that no blank begins is a brace if the text begins with
one. -/
theorem Cursor.next_kind_of_after {cursor : Cursor} {c : Char} {rest : List Char}
    (hafter : cursor.after = ' ' :: c :: rest) (hc : isSolid c = true) :
    (cursor.next.token.kind == .punct .lbrace) = opensBrace (c :: rest) := by
  have hblank : skipBlanks .plain cursor.token.span.stop false (' ' :: c :: rest) =
      ⟨cursor.token.span.stop + 1, c :: rest, false, none⟩ :=
    skipBlanks_of_isSolid hc (cursor.token.span.stop + 1) false rest
  have hkind : cursor.next.token.kind = (scanKind (c :: rest)).1 := by
    unfold Cursor.next Cursor.moveTo readToken
    rw [hafter, hblank]
  rw [hkind, opensBrace_of_scanKind (Prod.mk.eta (p := scanKind (c :: rest))).symm]

/-- An arrow function is read with a block as its body exactly if a brace comes after the arrow and
a blank. -/
theorem hasBlock_of_arrowRest {r : Rules} {head : ArrowHead} {scope : Scope} {cursor last : Cursor}
    {c : Char} {rest : List Char} {e : Expr} (hafter : cursor.after = ' ' :: c :: rest)
    (hc : isSolid c = true) (hread : r.arrowRest head scope cursor = .ok (e, last)) :
    e.hasBlock = opensBrace (c :: rest) := by
  let _ : Source := ⟨[]⟩
  have hblock := ensures_iff.1 (@Rules.arrowRest_hasBlock _ cursor r head) scope e last hread
  rw [hblock, Cursor.next_kind_of_after hafter hc]

end Grammar

/-! ## Functions that give the value of an expression -/

/-- What stands after the arrow of a function that is to give the value of an expression. It begins
with a brace exactly if an object stands at the left end of the expression, and it consists of as
many texts with commas between them as the expression lists expressions. -/
structure ArrowBody (e : Expr) (body : String) : Prop where
  opens : opensBrace body.toList = e.opensObject
  listed : ∃ texts, body = joinWith ", " texts ∧ texts.length = e.listed.length

section

variable {env : Env} {table table' : TemplateTable}

/-- The code of an expression that stands in the source, where it comes after an arrow. -/
theorem arrowBody_of_emitExpr {context : Context} {e : Expr} {body : String}
    (h : (emitExpr context e).runFrom env table = (.ok body, table'))
    (hstands : e.StandsIn env.source) : ArrowBody e body :=
  ⟨opensBrace_of_emitExpr h hstands, exists_texts_of_emitExpr h⟩

/-- A condition that is not yet deferred becomes a function without parameters. -/
theorem exists_body_of_condition {e : Expr} {code : String} (hdeferred : e.isDeferred = false)
    (h : (emitters.condition e).runFrom env table = (.ok code, table')) :
    ∃ body, (emitExpr .callback e).runFrom env table = (.ok body, table') ∧
      code = "() => " ++ body := by
  unfold Emitters.condition at h
  rw [if_neg (by rw [hdeferred]; exact Bool.false_ne_true)] at h
  obtain ⟨body, hbody, rfl⟩ := Emit.runFrom_bind_pure_eq_ok.1 h
  exact ⟨body, hbody, rfl⟩

/-- A key that is an expression becomes a function of the parameters of the item. -/
theorem exists_body_of_listBinding {marker line : String} {list : ListShape} {item : ItemShape}
    {e : Expr} (hitem : list.callback.itemShape? = some item)
    (hkey : item.element.key? = some (.expr e))
    (h : (emitters.listBinding marker list).runFrom env table = (.ok line, table')) :
    ∃ array params body key table₁, params.toList.head? = some '(' ∧
      (emitExpr .callback e).runFrom env table₁ = (.ok key, table') ∧
      line = Emitters.itemsLine marker array params body (some key) := by
  obtain ⟨array, params, body, key?, table₁, table₂, table₃, -, hparams, -, hkey?, rfl⟩ :=
    Emitters.exists_of_listBinding hitem h
  unfold Emitters.itemKey? at hkey?
  rw [hkey] at hkey?
  obtain ⟨key, hrun, rfl⟩ := Emit.runFrom_bind_pure_eq_ok.1 hkey?
  exact ⟨array, params, body, key, table₃, Emitters.head?_of_itemParams hparams, hrun, rfl⟩

end

/-- Let an expression be read as the value of an attribute. If it becomes the condition of a
component or the key of an item, it is put after an arrow as it is. What stands there begins with a
brace exactly if an object stands at the left end of the expression, and then the grammar reads a
block of statements there. -/
theorem arrow_body_opens_block_iff (env : Env) (depth : Nat) (scope : Scope) (cursor next : Cursor)
    (e : Expr) (hon : cursor.On env.source)
    (hread : (Rules.bounded depth).attributeValue scope cursor = .ok (.expr e, next))
    (hwf : e.markups ≠ [] → e.layout.WellFormed env.source) :
    (∀ table table' code, e.isDeferred = false →
      (emitters.condition e).runFrom env table = (.ok code, table') →
      ∃ body, (emitExpr .callback e).runFrom env table = (.ok body, table') ∧
        code = "() => " ++ body ∧ ArrowBody e body) ∧
    (∀ marker list item table table' line, list.callback.itemShape? = some item →
      item.element.key? = some (.expr e) →
      (emitters.listBinding marker list).runFrom env table = (.ok line, table') →
      ∃ array params body key table₁, params.toList.head? = some '(' ∧
        (emitExpr .callback e).runFrom env table₁ = (.ok key, table') ∧
        line = Emitters.itemsLine marker array params body (some key) ∧ ArrowBody e key) ∧
    ∀ body, ArrowBody e body → ∀ (r : Rules) head scope' arrow last c rest more value,
      body.toList = c :: rest → isSolid c = true → arrow.after = ' ' :: c :: (rest ++ more) →
      r.arrowRest head scope' arrow = .ok (value, last) → value.hasBlock = e.opensObject := by
  obtain ⟨hled, hopened⟩ := ledIn_of_attributeValue hon hread
  have hstands : e.StandsIn env.source := ⟨hled, hopened, hwf⟩
  refine ⟨?_, ?_, ?_⟩
  · intro table table' code hdeferred h
    obtain ⟨body, hbody, hcode⟩ := exists_body_of_condition hdeferred h
    exact ⟨body, hbody, hcode, arrowBody_of_emitExpr hbody hstands⟩
  · intro marker list item table table' line hitem hkey h
    obtain ⟨array, params, body, key, table₁, hparams, hrun, hline⟩ :=
      exists_body_of_listBinding hitem hkey h
    have hbody : ArrowBody e key := arrowBody_of_emitExpr hrun hstands
    exact ⟨array, params, body, key, table₁, hparams, hrun, hline, hbody⟩
  · intro body hbody r head scope' arrow last c rest more value hfirst hc hafter hvalue
    -- The reader looks only at the first token behind the arrow.
    calc value.hasBlock = opensBrace (c :: (rest ++ more)) := hasBlock_of_arrowRest hafter hc hvalue
      _ = opensBrace body.toList := by rw [hfirst]; rfl
      _ = e.opensObject := hbody.opens

/-- An item whose key assigns to a member of an object that holds markup. -/
def memberKeySource : String := "<li key=\x7b\x7ba: <b/>\x7d.b = y\x7d/>"

/-- The cursor at the value of the key. -/
def memberKeyCursor : Cursor :=
  (Cursor.atFront memberKeySource.toList).moveTo 8 (memberKeySource.toList.drop 8)

/-- A list of items with a key, whose text is that of the item above. -/
def listWithKey (key : Expr) : ListShape :=
  ⟨.ident ⟨23, 24⟩ "y", .arrow ⟨23, 24⟩ false ⟨23, 24⟩ [.ident ⟨23, 24⟩ "y"]
    (.expr (.markup (.element (.mk ⟨0, 27⟩ (.plain "li") [.named "key" (.expr key)] []))))⟩

/-- The code of the key as a condition. -/
def memberCondition : String := "() => \x7ba: _$clone(_tmpl$0)\x7d.b = y"

/-- The statement that binds the list. -/
def memberKeyLine : String :=
  "_$mapArrayKeyed(_m$0.parentNode, _m$0, y, (y) => _$clone(_tmpl$0), " ++
  "(y) => \x7ba: _$clone(_tmpl$1)\x7d.b = y);"

/-- Whether an expression with an object at its left end becomes these functions. -/
def becomesMember (env : Env) (e : Expr) : Bool :=
  decide (e.layout.WellFormed env.source) && !e.markups.isEmpty && !e.isDeferred &&
    e.opensObject &&
    ((emitters.condition e).runFrom env {}).1.toOption == some memberCondition &&
    ((emitters.listBinding "_m$0" (listWithKey e)).runFrom env {}).1.toOption == some memberKeyLine

/-- Whether a value is an expression with a property. -/
def Syntax.AttributeValue.exprAny (p : Expr → Bool) : AttributeValue → Bool
  | .expr e => p e
  | _ => false

/-- A computation that gives a result leaves a table. -/
theorem Emit.exists_of_toOption {α : Type} {p : Emit α} {env : Env} {table : TemplateTable} {a : α}
    (h : (p.runFrom env table).1.toOption = some a) :
    ∃ table', p.runFrom env table = (.ok a, table') :=
  ⟨_, Prod.ext (eq_ok_of_toOption h) rfl⟩

/-- An object stands at the left end of the key, so neither function assigns to the member. -/
theorem arrow_body_opens_block_iff_memberKey :
    ∃ e next, (Rules.bounded 16).attributeValue { types := false, markup := true } memberKeyCursor =
        .ok (.expr e, next) ∧
      e.markups ≠ [] ∧ e.layout.WellFormed memberKeySource.toList ∧ e.opensObject = true ∧
      (∃ table body,
        (emitters.condition e).runFrom ⟨memberKeySource.toList, {}⟩ {} =
          (.ok memberCondition, table) ∧
        memberCondition = "() => " ++ body ∧ ArrowBody e body) ∧
      ∃ table array params body key,
        (emitters.listBinding "_m$0" (listWithKey e)).runFrom ⟨memberKeySource.toList, {}⟩ {} =
          (.ok memberKeyLine, table) ∧
        memberKeyLine = Emitters.itemsLine "_m$0" array params body (some key) ∧
        ArrowBody e key := by
  -- The value is read by the kernel, and what is asked of it is decided with it.
  obtain ⟨⟨value, next⟩, hread, hvalue⟩ :
      ∃ result, (Rules.bounded 16).attributeValue { types := false, markup := true }
          memberKeyCursor = .ok result ∧
        result.1.exprAny (becomesMember ⟨memberKeySource.toList, {}⟩) = true :=
    exists_of_any_toOption (by decide +kernel)
  cases value with
  | expr e =>
    simp only [AttributeValue.exprAny, becomesMember, Bool.and_eq_true, Bool.not_eq_true',
      decide_eq_true_eq, beq_iff_eq, List.isEmpty_eq_false_iff] at hvalue
    obtain ⟨⟨⟨⟨⟨hwf, hmarkups⟩, hdeferred⟩, hopens⟩, hcondition⟩, hbinding⟩ := hvalue
    have hleft : IsLeft memberKeySource.toList 8 (memberKeySource.toList.drop 8) :=
      .inr ⟨memberKeySource.toList.take 8, (List.take_append_drop 8 _).symm, by decide +kernel⟩
    obtain ⟨hthunk, hkeys, -⟩ := arrow_body_opens_block_iff ⟨memberKeySource.toList, {}⟩ 16
      { types := false, markup := true } memberKeyCursor next e (.moveTo _ hleft) hread fun _ => hwf
    obtain ⟨table', hcondition⟩ := Emit.exists_of_toOption hcondition
    obtain ⟨table'', hbinding⟩ := Emit.exists_of_toOption hbinding
    obtain ⟨body, -, hcode, hbody⟩ := hthunk _ _ _ hdeferred hcondition
    obtain ⟨array, params, itemBody, key, -, -, -, hline, hkey⟩ :=
      hkeys _ _ _ _ _ _ rfl rfl hbinding
    exact ⟨e, next, hread, hmarkups, hwf, hopens, ⟨table', body, hcondition, hcode, hbody⟩,
      table'', array, params, itemBody, key, hbinding, hline, hkey⟩
  | _ => cases hvalue

/-! ## An object that becomes a block -/

namespace Syntax

/-- Whether a property of a name is an arrow function whose body is a block. -/
def Property.isBlockFunction (name : String) : Property → Bool
  | .field (.ident _ name') false value => name' == name && value.hasBlock
  | _ => false

/-- Whether the call of a component hands over an arrow function with a block under a name. -/
def Expr.handsBlock (name : String) (e : Expr) : Bool :=
  match (e.firstArgument?.bind Expr.firstArgument?).bind Expr.firstArgument? with
  | some (.object _ properties) => properties.any (Property.isBlockFunction name)
  | _ => false

end Syntax

/-- The code of a component with a condition. -/
def showCode : String :=
  "import \x7b unwrapProps as _$unwrapProps, unwrapComponent as _$unwrapComponent \x7d " ++
  "from \"sprig/dom\";\n_$unwrapComponent(Show(_$unwrapProps(" ++
  "\x7b when: () => \x7b a: 1 \x7d, children: \"x\" \x7d)))"

/-- A condition that is an object becomes a function with a block of statements. -/
theorem object_becomes_block :
    compile "<Show when=\x7b\x7ba: 1\x7d\x7d>x</Show>" "a.jsx" {} = .ok (some showCode) ∧
      ∃ m, parseModule (FileId.dialect "a.jsx") showCode.toList = .ok m ∧
        m.expressions.map (Expr.handsBlock "when") = [true] := by
  obtain ⟨m, hparse, hblock⟩ :
      ∃ m, parseModule (FileId.dialect "a.jsx") showCode.toList = .ok m ∧
        (m.expressions.map (Expr.handsBlock "when") == [true]) = true := by
    unfold showCode
    simp only [String.toList_append]
    exact exists_of_any_toOption (by decide +kernel)
  exact ⟨eq_ok_of_toOption (by decide +kernel), m, hparse, eq_of_beq hblock⟩

end MarkupCompiler
