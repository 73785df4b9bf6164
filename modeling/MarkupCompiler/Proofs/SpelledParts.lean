import MarkupCompiler.Markup.ListShape
import MarkupCompiler.Proofs.Depth
import MarkupCompiler.Proofs.Spelling

/-!
# What is in a spelled tree is spelled

The names and texts of whatever an emitter takes out of a tree are spelled in the source if those of
the tree are. This is so for the outermost markup of a tree (`Expr.allSpelled_markups`), and for the
array, callback, item and key of a list.
-/

namespace MarkupCompiler.Syntax

variable {text : List Char}

/-! ## Markup in a tree -/

/-- The names and texts of pieces of markup are spelled in a text. -/
def AllSpelled (text : List Char) (markups : List Markup) : Prop :=
  ∀ m ∈ markups, m.IsSpelled text

/-- Spelled markup and more of it is spelled. -/
theorem AllSpelled.append {markups more : List Markup} (h : AllSpelled text markups)
    (hmore : AllSpelled text more) : AllSpelled text (markups ++ more) :=
  List.forall_mem_append.2 ⟨h, hmore⟩

mutual

/-- The outermost markup of an expression is spelled like the expression. -/
theorem Expr.allSpelled_markups : ∀ e : Expr, e.IsSpelled text → AllSpelled text e.markups
  | .literal _ _, _ | .ident _ _, _ | .metaProperty _ _ _, _ | .superRef _, _ | .thisRef _, _ =>
    nofun
  | .template _ _ values, h => exprs_allSpelled_markups values h.2
  | .array _ items, h => items_allSpelled_markups items h
  | .object _ properties, h => properties_allSpelled_markups properties h
  | .arrow _ _ _ params body, h | .function _ _ _ params body, h =>
    (exprs_allSpelled_markups params h.1).append (body.allSpelled_markups h.2)
  | .classExpr _ parts, h => stmts_allSpelled_markups parts h
  | .assign _ _ e e', h | .binary _ _ e e', h | .index _ e e' _, h =>
    (e.allSpelled_markups h.1).append (e'.allSpelled_markups h.2)
  | .update _ _ _ e, h | .unary _ _ e, h | .await _ e, h | .chain _ e, h | .paren _ e, h
  | .typed _ _ e, h => e.allSpelled_markups h
  | .hasPrivate _ _ right, h => right.allSpelled_markups h.2
  | .conditional _ test consequent alternate, h =>
    (test.allSpelled_markups h.1).append
      ((consequent.allSpelled_markups h.2.1).append (alternate.allSpelled_markups h.2.2))
  | .sequence _ parts, h => exprs_allSpelled_markups parts h
  | .yield _ _ operand, h => option_allSpelled_markups operand h
  | .call _ callee _ arguments _, h | .construct _ callee _ arguments, h =>
    (callee.allSpelled_markups h.1).append (items_allSpelled_markups arguments h.2)
  | .importCall _ _ source options, h =>
    (source.allSpelled_markups h.1).append (option_allSpelled_markups options h.2)
  | .tagged _ tag _ _ values, h =>
    (tag.allSpelled_markups h.1).append (exprs_allSpelled_markups values h.2.2)
  | .member _ object _ _, h => object.allSpelled_markups h.1
  | .markup _, h => List.forall_mem_singleton.2 h

/-- The markup in an expression, if there is one, is spelled. -/
theorem option_allSpelled_markups :
    ∀ e? : Option Expr, optionSpelled text e? → AllSpelled text (optionMarkups e?)
  | none, _ => nofun
  | some e, h => e.allSpelled_markups h

/-- The markup in expressions is spelled. -/
theorem exprs_allSpelled_markups :
    ∀ es : List Expr, exprsSpelled text es → AllSpelled text (exprsMarkups es)
  | [], _ => nofun
  | e :: es, h => (e.allSpelled_markups h.1).append (exprs_allSpelled_markups es h.2)

/-- The markup in an item is spelled. -/
theorem Item.allSpelled_markups :
    ∀ item : Item, item.IsSpelled text → AllSpelled text item.markups
  | .hole, _ => nofun
  | .value value, h | .spread value, h => value.allSpelled_markups h

/-- The markup in items is spelled. -/
theorem items_allSpelled_markups :
    ∀ items : List Item, itemsSpelled text items → AllSpelled text (itemsMarkups items)
  | [], _ => nofun
  | item :: items, h => (item.allSpelled_markups h.1).append (items_allSpelled_markups items h.2)

/-- The markup in a property is spelled. -/
theorem Property.allSpelled_markups :
    ∀ property : Property, property.IsSpelled text → AllSpelled text property.markups
  | .spread value, h | .shorthand value, h => value.allSpelled_markups h
  | .field key _ value, h | .shorthandDefault key value, h | .method _ key value, h =>
    (key.allSpelled_markups h.1).append (value.allSpelled_markups h.2)

/-- The markup in properties is spelled. -/
theorem properties_allSpelled_markups : ∀ properties : List Property,
    propertiesSpelled text properties → AllSpelled text (propertiesMarkups properties)
  | [], _ => nofun
  | property :: properties, h =>
    (property.allSpelled_markups h.1).append (properties_allSpelled_markups properties h.2)

/-- The markup in the body of a function is spelled. -/
theorem Body.allSpelled_markups :
    ∀ body : Body, body.IsSpelled text → AllSpelled text body.markups
  | .missing, _ => nofun
  | .expr value, h => value.allSpelled_markups h
  | .block _ statements, h => stmts_allSpelled_markups statements h

/-- The markup in a statement is spelled. -/
theorem Stmt.allSpelled_markups : ∀ s : Stmt, s.IsSpelled text → AllSpelled text s.markups
  | .expr _ value, h | .operand value, h => value.allSpelled_markups h
  | .directive _, _ => nofun
  | .ret _ value, h => option_allSpelled_markups value h
  | .compound _ parts, h => stmts_allSpelled_markups parts h

/-- The markup in statements is spelled. -/
theorem stmts_allSpelled_markups :
    ∀ ss : List Stmt, stmtsSpelled text ss → AllSpelled text (stmtsMarkups ss)
  | [], _ => nofun
  | s :: ss, h => (s.allSpelled_markups h.1).append (stmts_allSpelled_markups ss h.2)

end

/-! ## Lists of items -/

/-- An expression is spelled without its parentheses. -/
theorem Expr.isSpelled_unparenthesized {e : Expr} (h : e.IsSpelled text) :
    e.unparenthesized.IsSpelled text := by
  fun_induction Expr.unparenthesized e with
  | case1 span inner ih => exact ih h
  | case2 => exact h

/-- The array and the callback of a list are spelled like the list. -/
theorem Expr.isSpelled_listShape {e : Expr} (h : e.IsSpelled text) {list : ListShape}
    (hlist : e.listShape? = some list) :
    list.array.IsSpelled text ∧ list.callback.IsSpelled text := by
  have hinner := isSpelled_unparenthesized h
  unfold Expr.listShape? at hlist
  split at hlist
  · rename_i heq
    split at hlist
    · cases hlist
      rw [heq] at hinner
      exact ⟨hinner.1.1, hinner.2.1⟩
    · cases hlist
  · cases hlist

/-- The element that a spelled expression is, is spelled. -/
theorem Expr.isSpelled_element {e : Expr} (h : e.IsSpelled text) {element : Element}
    (helement : e.element? = some element) : element.IsSpelled text := by
  have hinner := isSpelled_unparenthesized h
  unfold Expr.element? at helement
  split at helement
  · rename_i heq
    cases helement
    rw [heq] at hinner
    exact hinner
  · cases helement

/-- The element that a spelled body returns is spelled. -/
theorem Body.isSpelled_element {body : Body} (h : body.IsSpelled text) {element : Element}
    (helement : body.element? = some element) : element.IsSpelled text := by
  cases body with
  | missing => cases helement
  | expr value => exact Expr.isSpelled_element h helement
  | block span statements =>
    rw [Body.element?] at helement
    split at helement
    · rename_i retSpan value heq
      have hmem : Stmt.ret retSpan (some value) ∈ statements :=
        (List.mem_filter.1 (heq ▸ List.mem_singleton_self _)).1
      have hvalue : value.IsSpelled text := stmtsSpelled_iff.1 h _ hmem
      exact Expr.isSpelled_element hvalue helement
    · cases helement

/-- The parameters and the element of an item are spelled like the callback that makes it. -/
theorem Expr.isSpelled_itemShape {callback : Expr} (h : callback.IsSpelled text) {item : ItemShape}
    (hitem : callback.itemShape? = some item) :
    exprsSpelled text item.params ∧ item.element.IsSpelled text := by
  have hinner := isSpelled_unparenthesized h
  unfold Expr.itemShape? at hitem
  split at hitem
  · rename_i heq
    rw [heq] at hinner
    obtain ⟨element, helement, rfl⟩ := Option.map_eq_some_iff.1 hitem
    exact ⟨hinner.1, Body.isSpelled_element hinner.2 helement⟩
  · rename_i heq
    rw [heq] at hinner
    split at hitem
    · cases hitem
    · obtain ⟨element, helement, rfl⟩ := Option.map_eq_some_iff.1 hitem
      exact ⟨hinner.1, Body.isSpelled_element hinner.2 helement⟩
  · cases hitem

/-- The key of an element is spelled like the element. -/
theorem Element.isSpelled_key {e : Element} (h : e.IsSpelled text) {value : AttributeValue}
    (hkey : e.key? = some value) : value.IsSpelled text := by
  obtain ⟨span, tag, attributes, children⟩ := e
  obtain ⟨a, hmem, ha⟩ := List.exists_of_findSome?_eq_some hkey
  have hattribute := attributesSpelled_iff.1 h.2.1 a hmem
  split at ha
  · split at ha
    · cases ha
    · split at ha
      · cases ha
        exact hattribute.2
      · cases ha
  · cases ha

end MarkupCompiler.Syntax
