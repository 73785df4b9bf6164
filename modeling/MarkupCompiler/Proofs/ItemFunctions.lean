import MarkupCompiler.Proofs.Agreement
import MarkupCompiler.Proofs.Rewriting

/-!
# The functions that make items

The callback of a list that only returns an element is not handed over as it is: what makes an item
is an arrow function with the parameters of the callback. A function expression binds `this`, its
arguments and its own name; an arrow function binds none of them.

An expression refers to what is bound outside of it (`Expr.refersTo`). The callback and the arrow
function in its place refer to the same exactly if nothing in the parameters or the element refers
to what the callback binds by itself (`item_function_binds_iff`). Where something does, the arrow
function refers to something else, as in `function_callback_loses_bindings`.

Names that a statement declares are not told from names that it uses, and the fields of a class
count like the code around the class. Both make a reference out of what may be none, in the callback
and in the arrow function alike.
-/

namespace MarkupCompiler

open Syntax Grammar Text

/-! ## Statements that bind lists -/

namespace Emitters

/-- The body of the function that makes an item. -/
def itemBody (g : Emitters) (e : Element) : Emit String := do
  if e.isComponent then g.component e
  else if e.isStatic then return "_$clone(" ++ (← staticTemplate e.staticHtml?) ++ ")"
  else return "\x7b\n" ++ (← g.block e) ++ "\x7d"

/-- The statement that binds a list to a helper with given functions. -/
def listLine (helper marker array functions : String) : String :=
  helper ++ ("(" ++ marker ++ ".parentNode, " ++ marker ++ ", " ++ array ++ ", ") ++ functions
    ++ ");"

/-- The statement that binds a list of items, with the function that gives the key of an item if
there is one. -/
def itemsLine (marker array params body : String) : Option String → String
  | none => listLine "_$mapArray" marker array (params ++ " => " ++ body)
  | some key =>
    listLine "_$mapArrayKeyed" marker array
      (params ++ " => " ++ body ++ ", " ++ params ++ " => " ++ key)

variable {env : Env} {table table' : TemplateTable}

/-- Whatever is done with the body of the function that makes an item, that body is made first. -/
theorem exists_itemBody {g : Emitters} {e : Element} {α : Type} {next : String → Emit α} {a : α}
    (h : (if e.isComponent = true then g.component e >>= next
      else if e.isStatic = true then
        staticTemplate e.staticHtml? >>= fun template =>
          pure ("_$clone(" ++ template ++ ")") >>= next
      else g.block e >>= fun block =>
        pure ("\x7b\n" ++ block ++ "\x7d") >>= next).runFrom env table = (.ok a, table')) :
    ∃ body table₁, (g.itemBody e).runFrom env table = (.ok body, table₁) ∧
      (next body).runFrom env table₁ = (.ok a, table') := by
  unfold itemBody
  split at h
  · rename_i hcomponent
    rw [if_pos hcomponent]
    exact Emit.runFrom_bind_eq_ok.1 h
  · rename_i hcomponent
    rw [if_neg hcomponent]
    split at h
    · rename_i hstatic
      rw [if_pos hstatic]
      obtain ⟨template, table₁, htemplate, h⟩ := Emit.runFrom_bind_eq_ok.1 h
      exact ⟨_, table₁, Emit.runFrom_bind_eq_ok.2 ⟨template, table₁, htemplate, rfl⟩, h⟩
    · rename_i hstatic
      rw [if_neg hstatic]
      obtain ⟨block, table₁, hblock, h⟩ := Emit.runFrom_bind_eq_ok.1 h
      exact ⟨_, table₁, Emit.runFrom_bind_eq_ok.2 ⟨block, table₁, hblock, rfl⟩, h⟩

/-- The statement that binds a list of items is made of the array, the parameters and the element of
the items, and the key of the element. -/
theorem exists_of_listBinding {g : Emitters} {marker line : String} {list : ListShape}
    {item : ItemShape} (hitem : list.callback.itemShape? = some item)
    (h : (g.listBinding marker list).runFrom env table = (.ok line, table')) :
    ∃ array params body key? table₁ table₂ table₃,
      (g.expr .reactive list.array).runFrom env table = (.ok array, table₁) ∧
      (g.itemParams item).runFrom env table₁ = (.ok params, table₂) ∧
      (g.itemBody item.element).runFrom env table₂ = (.ok body, table₃) ∧
      (g.itemKey? item.element).runFrom env table₃ = (.ok key?, table') ∧
      line = itemsLine marker array params body key? := by
  obtain ⟨array, table₁, harray, h⟩ := Emit.runFrom_bind_eq_ok.1 h
  rw [hitem] at h
  obtain ⟨params, table₂, hparams, h⟩ := Emit.runFrom_bind_eq_ok.1 h
  obtain ⟨body, table₃, hbody, h⟩ := exists_itemBody h
  obtain ⟨key?, table₄, hkey, h⟩ := Emit.runFrom_bind_eq_ok.1 h
  refine ⟨array, params, body, key?, table₁, table₂, table₃, harray, hparams, hbody, ?_⟩
  cases key? with
  | none =>
    cases h
    exact ⟨hkey, rfl⟩
  | some key =>
    cases h
    refine ⟨hkey, ?_⟩
    simp only [itemsLine, listLine, String.append_assoc]

/-- The parameters of the function that makes an item are in parentheses. -/
theorem head?_of_itemParams {g : Emitters} {item : ItemShape} {params : String}
    (h : (g.itemParams item).runFrom env table = (.ok params, table')) :
    params.toList.head? = some '(' := by
  obtain ⟨text, -, rfl⟩ := Emit.runFrom_bind_pure_eq_ok.1 h
  split
  · rename_i hparen
    exact eq_of_beq hparen
  · rw [String.append_assoc, String.toList_append]
    rfl

end Emitters

/-! ## References -/

namespace Syntax

/-- What an expression can refer to: `this`, or what goes by a name. -/
inductive Reference where
  | self
  | name (name : String)
  deriving DecidableEq, Repr, Inhabited

/-- What a word refers to. -/
def Reference.ofWord (word : String) : Reference := if word == "this" then self else name word

/-- Whether the tag of an element refers to something: only those of components do. -/
def TagName.refersTo (r : Reference) : TagName → Bool
  | .plain name => isComponentTag name && r == .name name
  | .namespaced _ _ => false
  | .path owner _ => r == .ofWord owner
  | .self => r == .self

/-- Whether parameters are what a reference is to. -/
def paramsBind (params : List Expr) : Reference → Bool
  | .self => false
  | .name name => params.any (·.boundNames.contains name)

/-- What a function other than an arrow function binds, apart from its parameters. -/
def FunctionKind.ownNames (kind : FunctionKind) : List Reference :=
  .self :: .name "arguments" :: kind.name.toList.map .name

mutual

/-- Whether an expression refers to something that is bound outside of it. The key of a method
counts as if it stood in brackets. -/
def Expr.refersTo (r : Reference) : Expr → Bool
  | .literal _ _ | .metaProperty _ _ _ | .superRef _ => false
  | .template _ _ es | .sequence _ es => exprsReferTo r es
  | .ident _ name => r == .name name
  | .thisRef _ => r == .self
  | .array _ items => itemsReferTo r items
  | .object _ properties => propertiesReferTo r properties
  | .arrow _ _ _ params body =>
    !paramsBind params r && (exprsReferTo r params || body.refersTo r)
  | .function _ kind _ params body =>
    !kind.ownNames.contains r &&
      (!paramsBind params r && (exprsReferTo r params || body.refersTo r))
  | .classExpr _ parts => stmtsReferTo r parts
  | .assign _ _ e e' | .binary _ _ e e' | .index _ e e' _ => e.refersTo r || e'.refersTo r
  | .update _ _ _ e | .unary _ _ e | .hasPrivate _ _ e | .await _ e | .chain _ e | .paren _ e
  | .member _ e _ _ | .typed _ _ e => e.refersTo r
  | .conditional _ test consequent alternate =>
    test.refersTo r || consequent.refersTo r || alternate.refersTo r
  | .yield _ _ operand => optionRefersTo r operand
  | .call _ callee _ arguments _ | .construct _ callee _ arguments =>
    callee.refersTo r || itemsReferTo r arguments
  | .importCall _ _ source options => source.refersTo r || optionRefersTo r options
  | .tagged _ tag _ _ values => tag.refersTo r || exprsReferTo r values
  | .markup m => m.refersTo r

/-- Whether an expression that may be missing refers to something. -/
def optionRefersTo (r : Reference) : Option Expr → Bool
  | none => false
  | some e => e.refersTo r

/-- Whether one of several expressions refers to something. -/
def exprsReferTo (r : Reference) : List Expr → Bool
  | [] => false
  | e :: es => e.refersTo r || exprsReferTo r es

/-- Whether an array element or argument refers to something. -/
def Item.refersTo (r : Reference) : Item → Bool
  | .hole => false
  | .value value | .spread value => value.refersTo r

/-- Whether one of several array elements or arguments refers to something. -/
def itemsReferTo (r : Reference) : List Item → Bool
  | [] => false
  | item :: items => item.refersTo r || itemsReferTo r items

/-- Whether a property refers to something. -/
def Property.refersTo (r : Reference) : Property → Bool
  | .spread value | .shorthand value => value.refersTo r
  | .field key isComputed value => (isComputed && key.refersTo r) || value.refersTo r
  | .shorthandDefault key value | .method _ key value => key.refersTo r || value.refersTo r

/-- Whether one of several properties refers to something. -/
def propertiesReferTo (r : Reference) : List Property → Bool
  | [] => false
  | property :: properties => property.refersTo r || propertiesReferTo r properties

/-- Whether the body of a function refers to something. -/
def Body.refersTo (r : Reference) : Body → Bool
  | .missing => false
  | .expr value => value.refersTo r
  | .block _ statements => stmtsReferTo r statements

/-- Whether a statement refers to something. Names that it declares are not told from names that it
uses. -/
def Stmt.refersTo (r : Reference) : Stmt → Bool
  | .expr _ value | .operand value => value.refersTo r
  | .directive _ => false
  | .ret _ value => optionRefersTo r value
  | .compound _ parts => stmtsReferTo r parts

/-- Whether one of several statements refers to something. -/
def stmtsReferTo (r : Reference) : List Stmt → Bool
  | [] => false
  | s :: ss => s.refersTo r || stmtsReferTo r ss

/-- Whether markup refers to something. -/
def Markup.refersTo (r : Reference) : Markup → Bool
  | .element e => e.refersTo r
  | .fragment _ children => childrenReferTo r children

/-- Whether an element refers to something. -/
def Element.refersTo (r : Reference) : Element → Bool
  | .mk _ tag attributes children =>
    tag.refersTo r || attributesReferTo r attributes || childrenReferTo r children

/-- Whether an attribute refers to something. -/
def Attribute.refersTo (r : Reference) : Attribute → Bool
  | .spread value => value.refersTo r
  | .named _ value => value.refersTo r

/-- Whether one of several attributes refers to something. -/
def attributesReferTo (r : Reference) : List Attribute → Bool
  | [] => false
  | a :: attributes => a.refersTo r || attributesReferTo r attributes

/-- Whether the value of an attribute refers to something. -/
def AttributeValue.refersTo (r : Reference) : AttributeValue → Bool
  | .bare | .text _ | .empty => false
  | .expr value => value.refersTo r
  | .markup m => m.refersTo r

/-- Whether a child refers to something. -/
def Child.refersTo (r : Reference) : Child → Bool
  | .text _ | .empty => false
  | .markup m => m.refersTo r
  | .expr value => value.refersTo r
  | .spread value => value.refersTo r

/-- Whether one of several children refers to something. -/
def childrenReferTo (r : Reference) : List Child → Bool
  | [] => false
  | child :: children => child.refersTo r || childrenReferTo r children

end

/-- Whether a module refers to something that no function in it binds. -/
def Module.refersTo (m : Module) (r : Reference) : Bool := stmtsReferTo r m.statements

/-! ## The function of an item -/

/-- What a callback binds, apart from its parameters. -/
def Expr.ownNames (callback : Expr) : List Reference :=
  match callback.unparenthesized with
  | .function _ kind _ _ _ => kind.ownNames
  | _ => []

/-- The arrow function that makes an item. -/
def ItemShape.arrow (item : ItemShape) (span : Span) : Expr :=
  .arrow span false item.paramSpan item.params (.expr (.markup (.element item.element)))

variable {r : Reference}

/-- Parentheses refer to nothing. -/
theorem Expr.refersTo_unparenthesized (e : Expr) : e.unparenthesized.refersTo r = e.refersTo r := by
  fun_induction Expr.unparenthesized e with
  | case1 span inner ih => exact ih
  | case2 => rfl

/-- An expression that is an element refers to what the element does. -/
theorem Expr.refersTo_of_element? {e : Expr} {element : Element} (h : e.element? = some element) :
    e.refersTo r = element.refersTo r := by
  rw [← e.refersTo_unparenthesized]
  unfold Expr.element? at h
  split at h
  · rename_i heq
    cases h
    rw [heq]
    rfl
  · cases h

/-- Directives refer to nothing. -/
theorem stmtsReferTo_filter (statements : List Stmt) :
    stmtsReferTo r (statements.filter (!·.isDirective)) = stmtsReferTo r statements := by
  induction statements with
  | nil => rfl
  | cons s statements ih =>
    cases s with
    | directive span => exact ih
    | _ => exact congrArg (_ || ·) ih

/-- A body that only returns an element refers to what the element does. -/
theorem Body.refersTo_of_element? {body : Body} {element : Element}
    (h : body.element? = some element) : body.refersTo r = element.refersTo r := by
  cases body with
  | missing => cases h
  | expr value => exact Expr.refersTo_of_element? h
  | block span statements =>
    rw [Body.element?] at h
    split at h
    · rename_i retSpan value heq
      have hreturn : stmtsReferTo r statements = (value.refersTo r || false) := by
        rw [← stmtsReferTo_filter, heq]
        rfl
      rw [Body.refersTo, hreturn, Bool.or_false]
      exact Expr.refersTo_of_element? h
    · cases h

/-- A callback refers to what the arrow function in its place refers to, apart from what the
callback binds by itself. -/
theorem Expr.refersTo_of_itemShape? {callback : Expr} {item : ItemShape}
    (hitem : callback.itemShape? = some item) (span : Span) :
    callback.refersTo r = (!callback.ownNames.contains r && (item.arrow span).refersTo r) := by
  rw [← callback.refersTo_unparenthesized]
  unfold Expr.itemShape? at hitem
  unfold Expr.ownNames
  split at hitem
  · rename_i heq
    obtain ⟨element, helement, rfl⟩ := Option.map_eq_some_iff.1 hitem
    rw [heq, Expr.refersTo, Body.refersTo_of_element? helement]
    rfl
  · rename_i heq
    split at hitem
    · cases hitem
    · obtain ⟨element, helement, rfl⟩ := Option.map_eq_some_iff.1 hitem
      rw [heq, Expr.refersTo, Body.refersTo_of_element? helement]
      rfl
  · cases hitem

/-- The item that the arrow function in place of a callback makes. -/
theorem ItemShape.itemShape?_arrow (item : ItemShape) (span : Span) :
    (item.arrow span).itemShape? = some item := rfl

/-- The arrow function in place of a callback refers to what the parameters and the element do,
apart from the parameters. -/
theorem ItemShape.refersTo_arrow (item : ItemShape) (span : Span) (r : Reference) :
    (item.arrow span).refersTo r =
      (!paramsBind item.params r && (exprsReferTo r item.params || item.element.refersTo r)) := rfl

/-- A callback and the arrow function in its place refer to the same exactly if nothing in the
parameters or the element refers to what the callback binds by itself. -/
theorem Expr.refersTo_arrow_eq_iff {callback : Expr} {item : ItemShape}
    (hitem : callback.itemShape? = some item) (span : Span) :
    (∀ r, (item.arrow span).refersTo r = callback.refersTo r) ↔
      ∀ r ∈ callback.ownNames, paramsBind item.params r = false →
        exprsReferTo r item.params = false ∧ item.element.refersTo r = false := by
  constructor
  · intro hsame r hown hfree
    have hbound : callback.refersTo r = false := by
      rw [Expr.refersTo_of_itemShape? hitem span, List.contains_iff_mem.2 hown]
      rfl
    have hnone := (hsame r).trans hbound
    rw [ItemShape.refersTo_arrow, hfree] at hnone
    exact Bool.or_eq_false_iff.1 hnone
  · intro hnone r
    rw [Expr.refersTo_of_itemShape? hitem span]
    cases hown : callback.ownNames.contains r with
    | false => rfl
    | true =>
      rw [ItemShape.refersTo_arrow]
      cases hbinds : paramsBind item.params r with
      | true => rfl
      | false =>
        obtain ⟨hparams, helement⟩ := hnone r (List.contains_iff_mem.1 hown) hbinds
        rw [hparams, helement]
        rfl

end Syntax

/-- Only the parameters and the element of the items matter for the statement that binds a list. -/
theorem Emitters.listBinding_arrow {g : Emitters} (marker : String) {list : ListShape}
    {item : ItemShape} (hitem : list.callback.itemShape? = some item) (span : Span) :
    g.listBinding marker list = g.listBinding marker ⟨list.array, item.arrow span⟩ := by
  unfold Emitters.listBinding
  rw [hitem, item.itemShape?_arrow span]

/-- What makes an item between tags is an arrow function with the parameters of the callback, as if
the callback were that arrow function. So the callback and the function in its place refer to the
same exactly if nothing in the parameters or the element refers to what the callback binds by
itself: `this`, its arguments and its own name. -/
theorem item_function_binds_iff (e : Expr) (list : ListShape) (item : ItemShape)
    (hlist : e.listShape? = some list) (hitem : list.callback.itemShape? = some item)
    (span : Span) :
    (∀ marker, emitters.contentBinding marker (.expr e) =
      emitters.listBinding marker ⟨list.array, item.arrow span⟩) ∧
    (∀ marker env table line table',
      (emitters.contentBinding marker (.expr e)).runFrom env table = (.ok line, table') →
      ∃ array params body key? table₁ table₂ table₃,
        (emitters.itemParams item).runFrom env table₁ = (.ok params, table₂) ∧
        (emitters.itemBody item.element).runFrom env table₂ = (.ok body, table₃) ∧
        (emitters.itemKey? item.element).runFrom env table₃ = (.ok key?, table') ∧
        line = Emitters.itemsLine marker array params body key? ∧
        params.toList.head? = some '(') ∧
    (∀ r, list.callback.refersTo r =
      (!list.callback.ownNames.contains r && (item.arrow span).refersTo r)) ∧
    ((∀ r, (item.arrow span).refersTo r = list.callback.refersTo r) ↔
      ∀ r ∈ list.callback.ownNames, paramsBind item.params r = false →
        exprsReferTo r item.params = false ∧ item.element.refersTo r = false) := by
  -- A list is bound by its shape, of which the name of the callback is no part.
  have hcontent : ∀ marker, emitters.contentBinding marker (.expr e) =
      emitters.listBinding marker list := by
    intro marker
    rw [Emitters.contentBinding, hlist]
  refine ⟨fun marker => ?_, fun marker env table line table' hrun => ?_,
    fun r => Expr.refersTo_of_itemShape? hitem span, Expr.refersTo_arrow_eq_iff hitem span⟩
  · rw [hcontent marker, Emitters.listBinding_arrow marker hitem span]
  · rw [hcontent marker] at hrun
    obtain ⟨array, params, body, key?, table₁, table₂, table₃, -, hparams, hbody, hkey, hline⟩ :=
      Emitters.exists_of_listBinding hitem hrun
    exact ⟨array, params, body, key?, table₁, table₂, table₃, hparams, hbody, hkey, hline,
      Emitters.head?_of_itemParams hparams⟩

/-- A list of rows that may hold rows, which a function makes by calling itself:
`xs.map(function f(x) { return <li>{f(x)}</li>; })`. -/
def nestedRows : Expr :=
  .call ⟨0, 50⟩ (.member ⟨0, 6⟩ (.ident ⟨0, 2⟩ "xs") (.plain "map") false) none
    [.value (.function ⟨7, 49⟩ ⟨false, false, some "f"⟩ ⟨17, 20⟩ [.ident ⟨18, 19⟩ "x"]
      (.block ⟨21, 49⟩ [.ret ⟨23, 47⟩ (some (.markup (.element (.mk ⟨30, 46⟩ (.plain "li") []
        [.expr (.call ⟨35, 39⟩ (.ident ⟨35, 36⟩ "f") none [.value (.ident ⟨37, 38⟩ "x")]
          false)]))))]))]
    false

/-- The function that makes the rows knows itself, and the one in its place does not. -/
theorem item_function_binds_iff_nestedRows :
    ∃ list item, nestedRows.listShape? = some list ∧ list.callback.itemShape? = some item ∧
      list.callback.refersTo (.name "f") = false ∧
      (item.arrow ⟨0, 0⟩).refersTo (.name "f") = true ∧
      ¬ ∀ r, (item.arrow ⟨0, 0⟩).refersTo r = list.callback.refersTo r := by
  obtain ⟨list, item, hlist, hitem, hown, hbinds, hrefers⟩ :
      ∃ list item, nestedRows.listShape? = some list ∧ list.callback.itemShape? = some item ∧
        .name "f" ∈ list.callback.ownNames ∧ paramsBind item.params (.name "f") = false ∧
        item.element.refersTo (.name "f") = true :=
    ⟨_, _, rfl, rfl, by decide, by decide, by decide⟩
  obtain ⟨-, -, hcallback, hsame⟩ :=
    item_function_binds_iff nestedRows list item hlist hitem ⟨0, 0⟩
  refine ⟨list, item, hlist, hitem, ?_, ?_, fun hall => ?_⟩
  · rw [hcallback, List.contains_iff_mem.2 hown]
    rfl
  · rw [ItemShape.refersTo_arrow, hbinds, hrefers, Bool.or_true]
    rfl
  · have hnone := (hsame.1 hall (.name "f") hown hbinds).2
    rw [hrefers] at hnone
    cases hnone

/-! ## A callback that loses what it binds -/

/-- A module that renders a list with a callback which uses all that it binds. -/
def rowsSource : String :=
  "<p>\x7bxs.map(function f(x) \x7b return <A b=\x7bf(this, arguments)\x7d/>; \x7d)\x7d</p>"

/-- The code of the module, in which an arrow function makes the items. -/
def rowsCode : String :=
  "import \x7b template as _$template, clone as _$clone, mapArray as _$mapArray, " ++
  "findMarker as _$findMarker, unwrapProps as _$unwrapProps, " ++
  "unwrapComponent as _$unwrapComponent \x7d from \"sprig/dom\";\n" ++
  "const _tmpl$0 = _$template(\"<p><!--#0--></p>\");\n" ++
  "(() => \x7b\n  const _root$ = _$clone(_tmpl$0);\n" ++
  "  const _m$0 = _$findMarker(_root$, \"#0\");\n" ++
  "  _$mapArray(_m$0.parentNode, _m$0, xs, (x) => " ++
  "_$unwrapComponent(A(_$unwrapProps(\x7b b: f(this, arguments) \x7d))));\n" ++
  "  return _root$;\n\x7d)()"

/-- There is code of the module. -/
theorem compile_rowsSource : compile rowsSource "a.jsx" {} = .ok (some rowsCode) :=
  eq_ok_of_toOption (by decide +kernel)

/-- What the callback of a list binds by itself. -/
def callbackNames : List Reference := [.self, .name "arguments", .name "f"]

/-- The module can be read, and refers to nothing that the callback binds. -/
theorem exists_module_of_rowsSource :
    ∃ m, parseModule (FileId.dialect "a.jsx") rowsSource.toList = .ok m ∧
      callbackNames.all (!m.refersTo ·) = true :=
  exists_of_any_toOption (by decide +kernel)

/-- The code of the module can be read, and refers to all that the callback bound. -/
theorem exists_module_of_rowsCode :
    ∃ m, parseModule (FileId.dialect "a.jsx") rowsCode.toList = .ok m ∧
      callbackNames.all m.refersTo = true := by
  -- The characters of a long text take long to compute, so they are taken line by line.
  unfold rowsCode
  simp only [String.toList_append]
  exact exists_of_any_toOption (by decide +kernel)

/-- In the module the callback binds all that it uses by itself. In the code of the module nothing
binds it. -/
theorem function_callback_loses_bindings :
    compile rowsSource "a.jsx" {} = .ok (some rowsCode) ∧
    ∃ m m', parseModule (FileId.dialect "a.jsx") rowsSource.toList = .ok m ∧
      parseModule (FileId.dialect "a.jsx") rowsCode.toList = .ok m' ∧
      ∀ r ∈ callbackNames, m.refersTo r = false ∧ m'.refersTo r = true := by
  obtain ⟨m, hm, hbound⟩ := exists_module_of_rowsSource
  obtain ⟨m', hm', hfree⟩ := exists_module_of_rowsCode
  refine ⟨compile_rowsSource, m, m', hm, hm', fun r hr => ⟨?_, ?_⟩⟩
  · exact Bool.not_eq_true' _ ▸ List.all_eq_true.1 hbound r hr
  · exact List.all_eq_true.1 hfree r hr

end MarkupCompiler
