import MarkupCompiler.Proofs.Depth
import MarkupCompiler.Proofs.Layout

/-!
# Constituents are parts of the whole

Whatever an emitter takes out of a tree stands in the tree: the layout of a constituent is in the
layout of the whole. This is so for the values of an element's parts (`Element.layout_parts`), also
of those that belong to elements in it, and for the array, callback, item and key of a list.
-/

namespace MarkupCompiler.Syntax

open Layout

/-! ## Lists of constituents -/

/-- The second member of a list is in it. -/
theorem mem_second {α : Type} {first second : α} {rest : List α} :
    second ∈ first :: second :: rest := List.mem_cons_of_mem _ (.head _)

variable {y : Layout} {e : Expr} {a : Attribute}

/-- Layouts of lists that put together those of their members hold the layouts of each member. -/
theorem mem_of_mem_of_cons_eq_append {α : Type} {layouts : α → List Layout}
    {total : List α → List Layout} (hcons : ∀ x xs, total (x :: xs) = layouts x ++ total xs) {x : α}
    {xs : List α} (h : x ∈ xs) (hy : y ∈ layouts x) : y ∈ total xs := by
  induction xs with
  | nil => cases h
  | cons first xs ih =>
    rw [hcons, List.mem_append]
    rcases List.mem_cons.1 h with rfl | h
    · exact .inl hy
    · exact .inr (ih h)

/-- One of several expressions is among their layouts. -/
theorem layout_mem_exprsLayouts {es : List Expr} (h : e ∈ es) : e.layout ∈ exprsLayouts es := by
  have hcons : ∀ e es, exprsLayouts (e :: es) = [e.layout] ++ exprsLayouts es := fun _ _ => rfl
  exact mem_of_mem_of_cons_eq_append hcons h (.head _)

/-- What is in an item is in the items. -/
theorem mem_itemsLayouts {item : Item} {items : List Item} (h : item ∈ items)
    (hy : y ∈ item.layouts) : y ∈ itemsLayouts items :=
  mem_of_mem_of_cons_eq_append (fun _ _ => rfl) h hy

/-- What is in a property is in the properties. -/
theorem mem_propertiesLayouts {property : Property} {properties : List Property}
    (h : property ∈ properties) (hy : y ∈ property.layouts) : y ∈ propertiesLayouts properties :=
  mem_of_mem_of_cons_eq_append (fun _ _ => rfl) h hy

/-- One of several statements is among their layouts. -/
theorem layout_mem_stmtsLayouts {s : Stmt} {ss : List Stmt} (h : s ∈ ss) :
    s.layout ∈ stmtsLayouts ss := by
  have hcons : ∀ s ss, stmtsLayouts (s :: ss) = [s.layout] ++ stmtsLayouts ss := fun _ _ => rfl
  exact mem_of_mem_of_cons_eq_append hcons h (.head _)

/-- What is in an attribute is in the attributes. -/
theorem mem_attributesLayouts {attributes : List Attribute} (h : a ∈ attributes)
    (hy : y ∈ a.layouts) : y ∈ attributesLayouts attributes :=
  mem_of_mem_of_cons_eq_append (fun _ _ => rfl) h hy

/-- What is in a child is in the children. -/
theorem mem_childrenLayouts {c : Child} {children : List Child} (h : c ∈ children)
    (hy : y ∈ c.layouts) : y ∈ childrenLayouts children :=
  mem_of_mem_of_cons_eq_append (fun _ _ => rfl) h hy

/-- The parts of an element are its attributes and children. -/
theorem Element.parts_layout (e : Element) :
    e.layout.parts = attributesLayouts e.attributes ++ childrenLayouts e.children := by
  obtain ⟨span, tag, attributes, children⟩ := e
  rfl

/-- What is in an attribute of an element is in the element. -/
theorem Element.mem_inner_of_attribute {e : Element} (h : a ∈ e.attributes) (hy : y ∈ a.layouts) :
    y ∈ e.layout.inner := by
  refine mem_inner_of_mem_parts ?_
  rw [e.parts_layout]
  exact List.mem_append_left _ (mem_attributesLayouts h hy)

/-! ## The parts of an element -/

/-- The layout of what fills a slot. -/
def PartValue.layout : PartValue → Layout
  | .expr value | .spread value => value.layout
  | .markup m => m.layout

/-- What fills an attribute is its value. -/
theorem Attribute.layout_filler {name : Option String} {value : PartValue}
    (h : a.filler? = some (name, value)) : value.layout ∈ a.layouts := by
  unfold Attribute.filler? at h
  split at h <;> cases h <;> exact .head _

/-- What fills a child is what the child is. -/
theorem Child.layout_filler {c : Child} {value : PartValue} (h : c.filler? = some value) :
    value.layout ∈ c.layouts := by
  cases c <;> cases h <;> exact .head _

/-- What fills a part stands in the attributes or the children. -/
theorem HasPart.layout_mem {path : List Nat} {attributes : List Attribute} {children : List Child}
    {part : Part} (h : HasPart path attributes children part) :
    part.value.layout ∈ nodesOf (attributesLayouts attributes ++ childrenLayouts children) := by
  induction h with
  | inTag ha _ hfiller =>
    have hmem := mem_attributesLayouts ha (Attribute.layout_filler hfiller)
    exact mem_nodesOf_of_mem (List.mem_append_left _ hmem)
  | inContent hc _ hfiller =>
    have hmem := mem_childrenLayouts hc (Child.layout_filler hfiller)
    exact mem_nodesOf_of_mem (List.mem_append_right _ hmem)
  | @nested _ _ _ e _ _ he _ ih =>
    have hmem := mem_childrenLayouts he (.head _ : e.layout ∈ [e.layout])
    rw [← e.parts_layout] at ih
    exact mem_nodesOf_iff.2 ⟨_, List.mem_append_right _ hmem, mem_nodes_of_mem_inner ih⟩

/-- The parts of an element are in the element. -/
theorem Element.layout_parts (path : List Nat) (next : Nat) (e : Element) :
    ∀ part ∈ partsOf (e.pieces path next), part.value.layout ∈ e.layout.inner := by
  intro part hpart
  rw [Layout.inner, e.parts_layout]
  exact (e.hasPart path next part hpart).layout_mem

/-! ## Lists of items -/

/-- What is left without parentheses is in the expression. -/
theorem Expr.layout_unparenthesized (e : Expr) : e.unparenthesized.layout ∈ e.layout.nodes := by
  fun_induction Expr.unparenthesized e with
  | case1 span inner ih =>
    have hinner : inner.layout ∈ (Expr.paren span inner).layout.inner :=
      mem_inner_of_mem_parts (.head _)
    exact mem_nodes_of_mem_inner (mem_inner_trans ih hinner)
  | case2 e => exact mem_nodes_self _

/-- What is in an expression without parentheses is in the expression. -/
theorem Expr.mem_inner_of_unparenthesized (h : y ∈ e.unparenthesized.layout.inner) :
    y ∈ e.layout.inner := by
  have hnodes := e.layout_unparenthesized
  rw [nodes_eq, List.mem_cons] at hnodes
  rcases hnodes with hsame | hinner
  · rw [← hsame]
    exact h
  · exact mem_inner_trans (mem_nodes_of_mem_inner h) hinner

/-- The array and the callback of a list are in the list. -/
theorem Expr.layout_listShape {list : ListShape} (h : e.listShape? = some list) :
    list.array.layout ∈ e.layout.inner ∧ list.callback.layout ∈ e.layout.inner := by
  unfold Expr.listShape? at h
  split at h
  · rename_i callSpan memberSpan array name types callback heq
    split at h
    · cases h
      have hmember : (Expr.member memberSpan array (.plain name) false).layout ∈
          e.unparenthesized.layout.inner := by
        rw [heq]
        exact mem_inner_of_mem_parts (.head _)
      have harray : array.layout ∈
          (Expr.member memberSpan array (.plain name) false).layout.nodes :=
        mem_nodes_of_mem_inner (mem_inner_of_mem_parts (.head _))
      have hcallback : callback.layout ∈ e.unparenthesized.layout.inner := by
        rw [heq]
        refine mem_inner_of_mem_parts (List.mem_cons_of_mem _ (List.mem_append_right _ ?_))
        exact .head _
      exact ⟨mem_inner_of_unparenthesized (mem_inner_trans harray hmember),
        mem_inner_of_unparenthesized hcallback⟩
    · cases h
  · cases h

/-- The element that an expression is, perhaps in parentheses, is in the expression. -/
theorem Expr.layout_element {element : Element} (h : e.element? = some element) :
    element.layout ∈ e.layout.nodes := by
  have hnodes := e.layout_unparenthesized
  unfold Expr.element? at h
  split at h
  · rename_i heq
    rw [heq] at hnodes
    cases h
    exact hnodes
  · cases h

/-- The element that a body returns is in the body. -/
theorem Body.layout_element {body : Body} {element : Element} (h : body.element? = some element) :
    element.layout ∈ nodesOf body.layouts := by
  cases body with
  | missing => cases h
  | expr value =>
    rw [Body.layouts, nodesOf_singleton]
    exact Expr.layout_element h
  | block span statements =>
    rw [Body.element?] at h
    split at h
    · rename_i retSpan value heq
      have hstatement : Stmt.ret retSpan (some value) ∈ statements :=
        (List.mem_filter.1 (heq ▸ List.mem_singleton_self _)).1
      -- From the element through its statement to the block.
      have hvalue : value.layout ∈ (Stmt.ret retSpan (some value)).layout.inner :=
        mem_inner_of_mem_parts (.head _)
      have hret : (Stmt.ret retSpan (some value)).layout ∈
          (Layout.mk .plain span (stmtsLayouts statements)).inner :=
        mem_inner_of_mem_parts (layout_mem_stmtsLayouts hstatement)
      have helement := mem_inner_trans (Expr.layout_element h) hvalue
      rw [Body.layouts, nodesOf_singleton]
      exact mem_nodes_of_mem_inner (mem_inner_trans (mem_nodes_of_mem_inner helement) hret)
    · cases h

/-- The parameters and the element of an item are in the callback that makes it. -/
theorem Expr.layout_itemShape {callback : Expr} {item : ItemShape}
    (h : callback.itemShape? = some item) :
    .mk .plain item.paramSpan (exprsLayouts item.params) ∈ callback.layout.inner ∧
      item.element.layout ∈ callback.layout.inner := by
  -- Both kinds of functions have the same layout.
  have hfunction : ∀ (span paramSpan : Span) (params : List Expr) (body : Body)
      (element : Element), callback.unparenthesized.layout =
        .mk .function span (.mk .plain paramSpan (exprsLayouts params) :: body.layouts) →
      body.element? = some element →
      .mk .plain paramSpan (exprsLayouts params) ∈ callback.layout.inner ∧
        element.layout ∈ callback.layout.inner := by
    intro span paramSpan params body element hlayout helement
    refine ⟨mem_inner_of_unparenthesized ?_, mem_inner_of_unparenthesized ?_⟩
    · rw [hlayout]
      exact mem_inner_of_mem_parts (.head _)
    · rw [hlayout]
      exact List.mem_append_right _ (Body.layout_element helement)
  unfold Expr.itemShape? at h
  split at h
  · rename_i span paramSpan params body heq
    obtain ⟨element, helement, rfl⟩ := Option.map_eq_some_iff.1 h
    exact hfunction span paramSpan params body element (by rw [heq, Expr.layout]) helement
  · rename_i span kind paramSpan params body heq
    split at h
    · cases h
    · obtain ⟨element, helement, rfl⟩ := Option.map_eq_some_iff.1 h
      exact hfunction span paramSpan params body element (by rw [heq, Expr.layout]) helement
  · cases h

/-- The key of an element is in the element. -/
theorem Element.layout_key {e : Element} {key : Expr} (h : e.key? = some (.expr key)) :
    key.layout ∈ e.layout.inner := by
  obtain ⟨a, hmem, ha⟩ := List.exists_of_findSome?_eq_some h
  split at ha
  · split at ha
    · cases ha
    · split at ha
      · -- The key is the value of an attribute.
        cases ha
        exact Element.mem_inner_of_attribute hmem (.head _)
      · cases ha
  · cases ha

end MarkupCompiler.Syntax
