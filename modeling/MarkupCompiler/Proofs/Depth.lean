import MarkupCompiler.Markup.ListShape
import MarkupCompiler.Proofs.Pieces
import MarkupCompiler.Syntax.Walk

/-!
# Constituents are less deep than the whole

The depth of a tree bounds how often the emitters call one another. This needs that whatever an
emitter takes out of a tree is less deep than the tree: the markup in it (`Expr.allBelow_markups`),
the values of an element's parts (`Element.depth_parts`), and the array, callback, item and key of a
list.
-/

namespace MarkupCompiler.Syntax

/-! ## Lists of constituents -/

/-- A measure of lists that takes the greatest measure of their members bounds each member. -/
theorem le_of_mem_of_cons_eq_max {α : Type} {size : α → Nat} {total : List α → Nat}
    (hcons : ∀ x xs, total (x :: xs) = max (size x) (total xs)) {x : α} {xs : List α} (h : x ∈ xs) :
    size x ≤ total xs := by
  induction xs with
  | nil => cases h
  | cons first xs ih =>
    rw [hcons]
    rcases List.mem_cons.1 h with rfl | h
    · exact Nat.le_max_left _ _
    · exact Nat.le_trans (ih h) (Nat.le_max_right _ _)

variable {e : Expr} {a : Attribute} {c : Child}

/-- One of several expressions is at most as deep as the deepest. -/
theorem depth_le_exprsDepth {es : List Expr} (h : e ∈ es) : e.depth ≤ exprsDepth es :=
  le_of_mem_of_cons_eq_max (fun _ _ => by rw [exprsDepth]) h

/-- One of several array elements is at most as deep as the deepest. -/
theorem depth_le_itemsDepth {item : Item} {items : List Item} (h : item ∈ items) :
    item.depth ≤ itemsDepth items :=
  le_of_mem_of_cons_eq_max (fun _ _ => by rw [itemsDepth]) h

/-- One of several properties is at most as deep as the deepest. -/
theorem depth_le_propertiesDepth {property : Property} {properties : List Property}
    (h : property ∈ properties) : property.depth ≤ propertiesDepth properties :=
  le_of_mem_of_cons_eq_max (fun _ _ => by rw [propertiesDepth]) h

/-- One of several statements is at most as deep as the deepest. -/
theorem depth_le_stmtsDepth {s : Stmt} {ss : List Stmt} (h : s ∈ ss) : s.depth ≤ stmtsDepth ss :=
  le_of_mem_of_cons_eq_max (fun _ _ => by rw [stmtsDepth]) h

/-- One of several attributes is at most as deep as the deepest. -/
theorem depth_le_attributesDepth {attributes : List Attribute} (h : a ∈ attributes) :
    a.depth ≤ attributesDepth attributes :=
  le_of_mem_of_cons_eq_max (fun _ _ => by rw [attributesDepth]) h

/-- One of several children is at most as deep as the deepest. -/
theorem depth_le_childrenDepth {children : List Child} (h : c ∈ children) :
    c.depth ≤ childrenDepth children :=
  le_of_mem_of_cons_eq_max (fun _ _ => by rw [childrenDepth]) h

/-- An attribute is less deep than its element. -/
theorem Element.depth_attribute (e : Element) (h : a ∈ e.attributes) : a.depth < e.depth := by
  obtain ⟨span, tag, attributes, children⟩ := e
  rw [Element.depth, Nat.lt_succ_iff]
  exact Nat.le_trans (depth_le_attributesDepth h) (Nat.le_max_left _ _)

/-- A child is less deep than its element. -/
theorem Element.depth_child (e : Element) (h : c ∈ e.children) : c.depth < e.depth := by
  obtain ⟨span, tag, attributes, children⟩ := e
  rw [Element.depth, Nat.lt_succ_iff]
  exact Nat.le_trans (depth_le_childrenDepth h) (Nat.le_max_right _ _)

/-! ## Markup in a tree -/

/-- All markup of a list is less deep than `depth`. -/
def AllBelow (depth : Nat) (markups : List Markup) : Prop := ∀ m ∈ markups, m.depth < depth

namespace AllBelow

variable {depth depth' : Nat} {markups rest : List Markup}

/-- No markup is below every depth. -/
theorem nil : AllBelow depth [] := by
  intro m hm
  cases hm

/-- Markup below a depth is below a greater one. -/
theorem mono (h : AllBelow depth markups) (hle : depth ≤ depth') : AllBelow depth' markups :=
  fun m hm => Nat.lt_of_lt_of_le (h m hm) hle

/-- Markup below a depth is below the next one. -/
theorem succ (h : AllBelow depth markups) : AllBelow (depth + 1) markups := h.mono (Nat.le_succ _)

/-- Two lists are less deep than the greater of their bounds. -/
theorem append (h : AllBelow depth markups) (hrest : AllBelow depth' rest) :
    AllBelow (max depth depth') (markups ++ rest) := by
  intro m hm
  rcases List.mem_append.1 hm with hm | hm
  · exact Nat.lt_of_lt_of_le (h m hm) (Nat.le_max_left _ _)
  · exact Nat.lt_of_lt_of_le (hrest m hm) (Nat.le_max_right _ _)

end AllBelow

mutual

/-- The markup in an expression is less deep than the expression. -/
theorem Expr.allBelow_markups : ∀ e : Expr, AllBelow e.depth e.markups
  | .literal _ _ | .ident _ _ | .metaProperty _ _ _ | .superRef _ | .thisRef _ => .nil
  | .template _ _ es | .sequence _ es => (allBelow_exprsMarkups es).succ
  | .array _ items => (allBelow_itemsMarkups items).succ
  | .object _ properties => (allBelow_propertiesMarkups properties).succ
  | .arrow _ _ _ params body | .function _ _ _ params body =>
    ((allBelow_exprsMarkups params).append body.allBelow_markups).succ
  | .classExpr _ parts => (allBelow_stmtsMarkups parts).succ
  | .update _ _ _ e | .unary _ _ e | .hasPrivate _ _ e | .await _ e | .chain _ e | .paren _ e
  | .member _ e _ _ | .typed _ _ e => e.allBelow_markups.succ
  | .assign _ _ e e' | .binary _ _ e e' | .index _ e e' _ =>
    (e.allBelow_markups.append e'.allBelow_markups).succ
  | .conditional _ test consequent alternate =>
    (test.allBelow_markups.append
      (consequent.allBelow_markups.append alternate.allBelow_markups)).succ
  | .yield _ _ operand => (allBelow_optionMarkups operand).succ
  | .call _ callee _ arguments _ | .construct _ callee _ arguments =>
    (callee.allBelow_markups.append (allBelow_itemsMarkups arguments)).succ
  | .importCall _ _ source options =>
    (source.allBelow_markups.append (allBelow_optionMarkups options)).succ
  | .tagged _ tag _ _ values => (tag.allBelow_markups.append (allBelow_exprsMarkups values)).succ
  | .markup m => fun m' hm' => by
    rw [List.mem_singleton.1 hm']
    exact Nat.lt_succ_self m.depth

/-- The markup in an expression that may be missing is less deep than the expression. -/
theorem allBelow_optionMarkups : ∀ e : Option Expr, AllBelow (optionDepth e) (optionMarkups e)
  | none => .nil
  | some e => e.allBelow_markups

/-- The markup in expressions is less deep than the deepest of them. -/
theorem allBelow_exprsMarkups : ∀ es : List Expr, AllBelow (exprsDepth es) (exprsMarkups es)
  | [] => .nil
  | e :: es => e.allBelow_markups.append (allBelow_exprsMarkups es)

/-- The markup in an array element is less deep than the element. -/
theorem Item.allBelow_markups : ∀ item : Item, AllBelow item.depth item.markups
  | .hole => .nil
  | .value value | .spread value => value.allBelow_markups

/-- The markup in array elements is less deep than the deepest of them. -/
theorem allBelow_itemsMarkups :
    ∀ items : List Item, AllBelow (itemsDepth items) (itemsMarkups items)
  | [] => .nil
  | item :: items => item.allBelow_markups.append (allBelow_itemsMarkups items)

/-- The markup in a property is less deep than the property. -/
theorem Property.allBelow_markups : ∀ property : Property, AllBelow property.depth property.markups
  | .spread value | .shorthand value => value.allBelow_markups
  | .field key _ value | .shorthandDefault key value | .method _ key value =>
    key.allBelow_markups.append value.allBelow_markups

/-- The markup in properties is less deep than the deepest of them. -/
theorem allBelow_propertiesMarkups :
    ∀ properties : List Property,
      AllBelow (propertiesDepth properties) (propertiesMarkups properties)
  | [] => .nil
  | property :: properties =>
    property.allBelow_markups.append (allBelow_propertiesMarkups properties)

/-- The markup in the body of a function is less deep than the body. -/
theorem Body.allBelow_markups : ∀ body : Body, AllBelow body.depth body.markups
  | .missing => .nil
  | .expr value => value.allBelow_markups
  | .block _ statements => allBelow_stmtsMarkups statements

/-- The markup in a statement is less deep than the statement. -/
theorem Stmt.allBelow_markups : ∀ s : Stmt, AllBelow s.depth s.markups
  | .expr _ value | .operand value => value.allBelow_markups.succ
  | .directive _ => .nil
  | .ret _ value => (allBelow_optionMarkups value).succ
  | .compound _ parts => (allBelow_stmtsMarkups parts).succ

/-- The markup in statements is less deep than the deepest of them. -/
theorem allBelow_stmtsMarkups : ∀ ss : List Stmt, AllBelow (stmtsDepth ss) (stmtsMarkups ss)
  | [] => .nil
  | s :: ss => s.allBelow_markups.append (allBelow_stmtsMarkups ss)

end

/-! ## The parts of an element -/

/-- The depth of what fills a slot. -/
def PartValue.depth : PartValue → Nat
  | .expr value | .spread value => value.depth
  | .markup m => m.depth

/-- What fills an attribute is as deep as the attribute. -/
theorem Attribute.depth_filler {name : Option String} {value : PartValue}
    (h : a.filler? = some (name, value)) : value.depth = a.depth := by
  unfold Attribute.filler? at h
  split at h <;> cases h <;> rfl

/-- What fills a child is as deep as the child. -/
theorem Child.depth_filler {value : PartValue} (h : c.filler? = some value) :
    value.depth = c.depth := by
  cases c <;> cases h <;> rfl

/-- What fills a part is at most as deep as the deepest attribute or child. -/
theorem HasPart.depth_le {path : List Nat} {attributes : List Attribute} {children : List Child}
    {part : Part} (h : HasPart path attributes children part) :
    part.value.depth ≤ max (attributesDepth attributes) (childrenDepth children) := by
  induction h with
  | inTag ha _ hfiller =>
    rw [Attribute.depth_filler hfiller]
    exact Nat.le_trans (depth_le_attributesDepth ha) (Nat.le_max_left _ _)
  | inContent hc _ hfiller =>
    rw [Child.depth_filler hfiller]
    exact Nat.le_trans (depth_le_childrenDepth hc) (Nat.le_max_right _ _)
  | @nested _ _ _ e _ _ he _ ih =>
    obtain ⟨span, tag, attributes, children⟩ := e
    have hchild := depth_le_childrenDepth he
    rw [Child.depth, Markup.depth, Element.depth] at hchild
    dsimp only [Element.attributes, Element.children] at ih
    omega

/-- The parts of an element are less deep than the element. -/
theorem Element.depth_parts (path : List Nat) (next : Nat) (e : Element) :
    ∀ part ∈ partsOf (e.pieces path next), part.value.depth < e.depth := by
  intro part hpart
  have hle := (e.hasPart path next part hpart).depth_le
  obtain ⟨span, tag, attributes, children⟩ := e
  exact Nat.lt_succ_of_le hle

/-! ## Lists of items -/

/-- Parentheses add to the depth. -/
theorem Expr.depth_unparenthesized (e : Expr) : e.unparenthesized.depth ≤ e.depth := by
  fun_induction Expr.unparenthesized e with
  | case1 span inner ih =>
    rw [Expr.depth]
    exact Nat.le_succ_of_le ih
  | case2 e => exact Nat.le_refl _

/-- The array and the callback of a list are less deep than the list. -/
theorem Expr.depth_listShape {list : ListShape} (h : e.listShape? = some list) :
    list.array.depth < e.depth ∧ list.callback.depth < e.depth := by
  have hle := e.depth_unparenthesized
  unfold Expr.listShape? at h
  split at h
  · rename_i heq
    rw [heq, Expr.depth, Expr.depth, itemsDepth, Item.depth] at hle
    split at h
    · cases h
      dsimp only
      omega
    · cases h
  · cases h

/-- The element that an expression is, perhaps in parentheses, is less deep than the expression. -/
theorem Expr.depth_element {element : Element} (h : e.element? = some element) :
    element.depth < e.depth := by
  have hle := e.depth_unparenthesized
  unfold Expr.element? at h
  split at h
  · rename_i heq
    rw [heq, Expr.depth, Markup.depth] at hle
    cases h
    omega
  · cases h

/-- The element that a body returns is less deep than the body. -/
theorem Body.depth_element {body : Body} {element : Element} (h : body.element? = some element) :
    element.depth < body.depth := by
  cases body with
  | missing => cases h
  | expr value => exact Expr.depth_element h
  | block span statements =>
    rw [Body.element?] at h
    split at h
    · -- The statement that returns is one of the body's, of which directives were left out.
      rename_i retSpan value heq
      have hmem : Stmt.ret retSpan (some value) ∈ statements :=
        (List.mem_filter.1 (heq ▸ List.mem_singleton_self _)).1
      have hle := depth_le_stmtsDepth hmem
      rw [Stmt.depth, optionDepth] at hle
      have hlt := Expr.depth_element h
      rw [Body.depth]
      omega
    · cases h

/-- The parameters and the element of an item are less deep than the callback that makes it. -/
theorem Expr.depth_itemShape {callback : Expr} {item : ItemShape}
    (h : callback.itemShape? = some item) :
    exprsDepth item.params < callback.depth ∧ item.element.depth < callback.depth := by
  have hle := callback.depth_unparenthesized
  unfold Expr.itemShape? at h
  split at h
  · rename_i heq
    obtain ⟨element, helement, rfl⟩ := Option.map_eq_some_iff.1 h
    have hlt := Body.depth_element helement
    rw [heq, Expr.depth] at hle
    dsimp only
    omega
  · rename_i heq
    split at h
    · cases h
    · obtain ⟨element, helement, rfl⟩ := Option.map_eq_some_iff.1 h
      have hlt := Body.depth_element helement
      rw [heq, Expr.depth] at hle
      dsimp only
      omega
  · cases h

/-- The key of an element is less deep than the element. -/
theorem Element.depth_key {e : Element} {value : AttributeValue} (h : e.key? = some value) :
    value.depth < e.depth := by
  obtain ⟨a, hmem, ha⟩ := List.exists_of_findSome?_eq_some h
  have hlt := e.depth_attribute hmem
  split at ha
  · split at ha
    · cases ha
    · split at ha
      · -- The key is the value of an attribute, and has its depth.
        cases ha
        exact hlt
      · cases ha
  · cases ha

end MarkupCompiler.Syntax
