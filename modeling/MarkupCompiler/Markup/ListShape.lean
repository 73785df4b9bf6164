import MarkupCompiler.Syntax.Tree

/-!
# Lists of items

An expression of the form `array.map(callback)` between tags renders a list. If the callback only
returns an element, that element is the template of an item.
-/

namespace MarkupCompiler.Syntax

/-- An array and the function that is applied to its items. -/
structure ListShape where
  array : Expr
  callback : Expr

/-- The shape of an expression that maps the items of an array. -/
def Expr.listShape? (e : Expr) : Option ListShape :=
  match e.unparenthesized with
  | .call _ (.member _ items (.plain name) false) _ [.value callback] false =>
    if name == "map" then some ⟨items, callback⟩ else none
  | _ => none

/-- The template of an item: the parameters of the callback and the element that it returns. -/
structure ItemShape where
  paramSpan : Span
  params : List Expr
  element : Element

/-- The element that an expression is, perhaps in parentheses. -/
def Expr.element? (e : Expr) : Option Element :=
  match e.unparenthesized with
  | .markup (.element element) => some element
  | _ => none

/-- Whether a statement is a directive. -/
def Stmt.isDirective : Stmt → Bool
  | .directive _ => true
  | _ => false

/-- The element that a body returns, if it does nothing else. -/
def Body.element? : Body → Option Element
  | .missing => none
  | .expr value => value.element?
  | .block _ statements =>
    match statements.filter (!·.isDirective) with
    | [.ret _ (some value)] => value.element?
    | _ => none

/-- The template of the items that a callback returns. -/
def Expr.itemShape? (callback : Expr) : Option ItemShape :=
  match callback.unparenthesized with
  | .arrow _ false paramSpan params body => body.element?.map (⟨paramSpan, params, ·⟩)
  | .function _ kind paramSpan params body =>
    if kind.isAsync || kind.isGenerator then none else body.element?.map (⟨paramSpan, params, ·⟩)
  | _ => none

/-- The value of the first attribute named `key` that has one. -/
def Element.key? (e : Element) : Option AttributeValue :=
  e.attributes.findSome? fun
    | .named name value =>
      match value with
      | .bare => none
      | _ => if name == "key" then some value else none
    | .spread _ => none

end MarkupCompiler.Syntax
