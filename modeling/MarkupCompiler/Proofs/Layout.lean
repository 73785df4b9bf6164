import MarkupCompiler.Proofs.Splicing
import MarkupCompiler.Syntax.Stretch

/-!
# Where the parts of a tree stand

The layout of a tree forgets what its parts are and keeps where they stand: a span for each part,
and the parts in it. Whatever is said about the spans of a module is said about its layout. Markup,
functions and tokens are told from other parts.

The outermost markup of a tree is that of its layout (`Expr.outermost_layout`). A stretch of the
source that keeps its text belongs to a part (`Stretch.Of`): it is the whole part, or a function up
to its body, and has the outermost markup of the part or of the parameters (`Stretch.Of.cases`).
-/

namespace MarkupCompiler

open Text

/-- What a part of a tree is, as far as its place matters. -/
inductive Layout.Kind where
  /-- A part of which nothing is known. -/
  | plain
  /-- A literal, or the key of a property that is written like one. -/
  | token
  /-- A function: its parts are its parameters and its body. -/
  | function
  /-- An element or fragment. -/
  | markup
  deriving DecidableEq, Repr, Inhabited

/-- A part of a tree: what it is, where it stands, and the parts in it. -/
inductive Layout where
  | mk (kind : Layout.Kind) (span : Span) (parts : List Layout)

namespace Layout

/-- What a part is. -/
def kind : Layout → Kind
  | mk kind _ _ => kind

/-- Where a part stands. -/
def span : Layout → Span
  | mk _ span _ => span

/-- The parts in a part, one level down. -/
def parts : Layout → List Layout
  | mk _ _ parts => parts

/-- Whether a part is an element or fragment. -/
def isMarkup (x : Layout) : Bool := x.kind == .markup

mutual

/-- A part and all parts in it, at any level. -/
def nodes : Layout → List Layout
  | mk kind span parts => mk kind span parts :: nodesOf parts

/-- Several parts and all parts in them. -/
def nodesOf : List Layout → List Layout
  | [] => []
  | x :: xs => x.nodes ++ nodesOf xs

end

mutual

/-- The outermost of the parts that have a property, in source order: a part that stands in another
of them is not listed. -/
def outermost (p : Layout → Bool) : Layout → List Layout
  | mk kind span parts =>
    if p (mk kind span parts) then [mk kind span parts] else outermostOf p parts

/-- The outermost parts that have a property, in several parts. -/
def outermostOf (p : Layout → Bool) : List Layout → List Layout
  | [] => []
  | x :: xs => x.outermost p ++ outermostOf p xs

end

/-- All parts in a part, at any level, but not the part itself. -/
def inner (x : Layout) : List Layout := nodesOf x.parts

variable {p q : Layout → Bool} {x y z : Layout} {xs : List Layout}

/-- To prove something of every part, assume it of the parts one level down. -/
@[elab_as_elim, induction_eliminator]
theorem induct {motive : Layout → Prop}
    (mk : ∀ kind span parts, (∀ x ∈ parts, motive x) → motive (mk kind span parts)) :
    ∀ x, motive x
  | .mk kind span parts => mk kind span parts fun x _ => induct mk x

/-! ## All parts -/

/-- The nodes of several layouts come one layout after another. -/
theorem nodesOf_eq_flatMap (xs : List Layout) : nodesOf xs = xs.flatMap nodes := by
  induction xs with
  | nil => rfl
  | cons x xs ih => rw [nodesOf, List.flatMap_cons, ih]

/-- So do those of two lists of layouts. -/
theorem nodesOf_append (xs ys : List Layout) : nodesOf (xs ++ ys) = nodesOf xs ++ nodesOf ys := by
  simp only [nodesOf_eq_flatMap, List.flatMap_append]

/-- One layout has its nodes. -/
theorem nodesOf_singleton (x : Layout) : nodesOf [x] = x.nodes := List.append_nil _

/-- The nodes are the layout and what is in it. -/
theorem nodes_eq (x : Layout) : x.nodes = x :: x.inner := by
  obtain ⟨kind, span, parts⟩ := x
  rw [nodes, inner, Layout.parts]

/-- A layout is one of its nodes. -/
theorem mem_nodes_self (x : Layout) : x ∈ x.nodes := by
  rw [nodes_eq]
  exact .head _

/-- So is what is in it. -/
theorem mem_nodes_of_mem_inner (h : y ∈ x.inner) : y ∈ x.nodes := by
  rw [nodes_eq]
  exact List.mem_cons_of_mem x h

/-- A node of several layouts is a node of one of them. -/
theorem mem_nodesOf_iff : y ∈ nodesOf xs ↔ ∃ x ∈ xs, y ∈ x.nodes := by
  rw [nodesOf_eq_flatMap, List.mem_flatMap]

/-- Each of several layouts is a node of them. -/
theorem mem_nodesOf_of_mem (h : y ∈ xs) : y ∈ nodesOf xs :=
  mem_nodesOf_iff.2 ⟨y, h, y.mem_nodes_self⟩

/-- What is in a layout is a node of one of its parts. -/
theorem mem_inner_iff : y ∈ x.inner ↔ ∃ part ∈ x.parts, y ∈ part.nodes := mem_nodesOf_iff

/-- The parts one level down are among all parts. -/
theorem mem_inner_of_mem_parts (h : y ∈ x.parts) : y ∈ x.inner := mem_nodesOf_of_mem h

/-- What is in a part of a part is in the part. -/
theorem mem_nodes_trans (hz : z ∈ y.nodes) (hy : y ∈ x.nodes) : z ∈ x.nodes := by
  induction x with
  | mk kind span parts ih =>
    rw [nodes_eq, List.mem_cons] at hy
    rcases hy with rfl | hy
    · exact hz
    · obtain ⟨part, hpart, hy⟩ := mem_inner_iff.1 hy
      exact mem_nodes_of_mem_inner (mem_inner_iff.2 ⟨part, hpart, ih part hpart hy⟩)

/-- What is in a part that is in another is in the other. -/
theorem mem_inner_trans (hz : z ∈ y.nodes) (hy : y ∈ x.inner) : z ∈ x.inner := by
  obtain ⟨part, hpart, hy⟩ := mem_inner_iff.1 hy
  exact mem_inner_iff.2 ⟨part, hpart, mem_nodes_trans hz hy⟩

/-! ## Outermost parts -/

/-- The outermost nodes come one layout after another, too. -/
theorem outermostOf_eq_flatMap (p : Layout → Bool) (xs : List Layout) :
    outermostOf p xs = xs.flatMap (outermost p) := by
  induction xs with
  | nil => rfl
  | cons x xs ih => rw [outermostOf, List.flatMap_cons, ih]

/-- And so for two lists of layouts. -/
theorem outermostOf_append (p : Layout → Bool) (xs ys : List Layout) :
    outermostOf p (xs ++ ys) = outermostOf p xs ++ outermostOf p ys := by
  simp only [outermostOf_eq_flatMap, List.flatMap_append]

/-- A part that has the property is the outermost one. -/
theorem outermost_of_pos (h : p x = true) : x.outermost p = [x] := by
  obtain ⟨kind, span, parts⟩ := x
  rw [outermost, if_pos h]

/-- In a part that does not have the property, the outermost ones are those of its parts. -/
theorem outermost_of_neg (h : p x = false) : x.outermost p = outermostOf p x.parts := by
  obtain ⟨kind, span, parts⟩ := x
  rw [outermost, if_neg (by rw [h]; exact Bool.false_ne_true), Layout.parts]

/-- No layouts have no nodes. -/
@[simp] theorem outermostOf_nil (p : Layout → Bool) : outermostOf p [] = [] := rfl

/-- Those of the first layout come first. -/
@[simp] theorem outermostOf_cons (p : Layout → Bool) (x : Layout) (xs : List Layout) :
    outermostOf p (x :: xs) = x.outermost p ++ outermostOf p xs := rfl

/-- The outermost markup of a part of which nothing is known is that of its parts. -/
@[simp] theorem outermost_plain (span : Span) (parts : List Layout) :
    (mk .plain span parts).outermost isMarkup = outermostOf isMarkup parts := rfl

/-- So is that of a token. -/
@[simp] theorem outermost_token (span : Span) (parts : List Layout) :
    (mk .token span parts).outermost isMarkup = outermostOf isMarkup parts := rfl

/-- So is that of a function. -/
@[simp] theorem outermost_function (span : Span) (parts : List Layout) :
    (mk .function span parts).outermost isMarkup = outermostOf isMarkup parts := rfl

/-- Outermost parts with a property are parts, and have it. -/
theorem mem_of_mem_outermost (h : y ∈ x.outermost p) : y ∈ x.nodes ∧ p y = true := by
  induction x with
  | mk kind span parts ih =>
    cases hp : p (mk kind span parts) with
    | true =>
      rw [outermost_of_pos hp, List.mem_singleton] at h
      rw [h]
      exact ⟨mem_nodes_self _, hp⟩
    | false =>
      rw [outermost_of_neg hp, outermostOf_eq_flatMap, List.mem_flatMap] at h
      obtain ⟨part, hpart, hy⟩ := h
      obtain ⟨hmem, hpy⟩ := ih part hpart hy
      exact ⟨mem_nodes_of_mem_inner (mem_inner_iff.2 ⟨part, hpart, hmem⟩), hpy⟩

/-- In a part without the property, the outermost parts with it are in the part. -/
theorem mem_inner_of_mem_outermost (hx : p x = false) (h : y ∈ x.outermost p) : y ∈ x.inner := by
  rw [outermost_of_neg hx, outermostOf_eq_flatMap, List.mem_flatMap] at h
  obtain ⟨part, hpart, hy⟩ := h
  exact mem_inner_iff.2 ⟨part, hpart, (mem_of_mem_outermost hy).1⟩

/-- Properties that are the same for all parts have the same outermost parts. -/
theorem outermost_congr (h : ∀ y ∈ x.nodes, p y = q y) : x.outermost p = x.outermost q := by
  induction x with
  | mk kind span parts ih =>
    have hself := h _ (mem_nodes_self _)
    have hparts : ∀ part ∈ parts, part.outermost p = part.outermost q := fun part hpart =>
      ih part hpart fun y hy => h y (mem_nodes_of_mem_inner (mem_inner_iff.2 ⟨part, hpart, hy⟩))
    rw [outermost, outermost, hself, outermostOf_eq_flatMap, outermostOf_eq_flatMap,
      List.flatMap_def, List.flatMap_def, List.map_congr_left hparts]

/-- Of a property that no part has there are no outermost parts. -/
theorem outermost_eq_nil (h : ∀ y ∈ x.nodes, p y = false) : x.outermost p = [] := by
  rw [List.eq_nil_iff_forall_not_mem]
  intro y hy
  obtain ⟨hmem, hp⟩ := mem_of_mem_outermost hy
  rw [h y hmem] at hp
  exact Bool.false_ne_true hp

end Layout

namespace Syntax

/-- The layout of a type, which is a part like any other. -/
def typeLayouts : Option Span → List Layout
  | none => []
  | some span => [.mk .plain span []]

/-- The layout of what a type says about an expression. -/
def TypeMark.layouts : TypeMark → List Layout
  | asType span | satisfies span | assertion span | instantiation span => [.mk .plain span []]
  | nonNull => []

/-- Whether an expression is a name. -/
def Expr.isName : Expr → Bool
  | ident _ _ => true
  | _ => false

mutual

/-- The layout of an expression. -/
def Expr.layout : Expr → Layout
  | .literal span _ => .mk .token span []
  | .ident span _ | .metaProperty span _ _ | .superRef span | .thisRef span => .mk .plain span []
  | .template span _ es | .sequence span es => .mk .plain span (exprsLayouts es)
  | .array span items => .mk .plain span (itemsLayouts items)
  | .object span properties => .mk .plain span (propertiesLayouts properties)
  | .arrow span _ paramSpan params body | .function span _ paramSpan params body =>
    .mk .function span (.mk .plain paramSpan (exprsLayouts params) :: body.layouts)
  | .classExpr span parts => .mk .plain span (stmtsLayouts parts)
  | .assign span _ e e' | .binary span _ e e' | .index span e e' _ =>
    .mk .plain span [e.layout, e'.layout]
  | .update span _ _ e | .unary span _ e | .hasPrivate span _ e | .await span e | .chain span e
  | .paren span e | .member span e _ _ => .mk .plain span [e.layout]
  | .conditional span test consequent alternate =>
    .mk .plain span [test.layout, consequent.layout, alternate.layout]
  | .yield span _ operand => .mk .plain span (optionLayouts operand)
  | .call span callee types arguments _ | .construct span callee types arguments =>
    .mk .plain span (callee.layout :: (typeLayouts types ++ itemsLayouts arguments))
  | .importCall span _ source options => .mk .plain span (source.layout :: optionLayouts options)
  | .tagged span tag types _ values =>
    .mk .plain span (tag.layout :: (typeLayouts types ++ exprsLayouts values))
  | .typed span mark inner => .mk .plain span (mark.layouts ++ [inner.layout])
  | .markup m => m.layout

/-- The layout of an expression that may be missing. -/
def optionLayouts : Option Expr → List Layout
  | none => []
  | some e => [e.layout]

/-- The layouts of expressions. -/
def exprsLayouts : List Expr → List Layout
  | [] => []
  | e :: es => e.layout :: exprsLayouts es

/-- The layout of an array element or argument. -/
def Item.layouts : Item → List Layout
  | .hole => []
  | .value value | .spread value => [value.layout]

/-- The layouts of array elements or arguments. -/
def itemsLayouts : List Item → List Layout
  | [] => []
  | item :: items => item.layouts ++ itemsLayouts items

/-- The layouts of the parts of a property. -/
def Property.layouts : Property → List Layout
  | .spread value | .shorthand value => [value.layout]
  | .field key isComputed value =>
    [.mk (if isComputed || key.isName then .plain else .token) key.span [key.layout], value.layout]
  | .shorthandDefault name value => [name.layout, value.layout]
  | .method span key function => [.mk .plain span [key.layout, function.layout]]

/-- The layouts of the parts of properties. -/
def propertiesLayouts : List Property → List Layout
  | [] => []
  | property :: properties => property.layouts ++ propertiesLayouts properties

/-- The layout of the body of a function. -/
def Body.layouts : Body → List Layout
  | .missing => []
  | .expr value => [value.layout]
  | .block span statements => [.mk .plain span (stmtsLayouts statements)]

/-- The layout of a statement. -/
def Stmt.layout : Stmt → Layout
  | .expr span value => .mk .plain span [value.layout]
  | .directive span => .mk .plain span []
  | .ret span value => .mk .plain span (optionLayouts value)
  | .compound span parts => .mk .plain span (stmtsLayouts parts)
  | .operand value => value.layout

/-- The layouts of statements. -/
def stmtsLayouts : List Stmt → List Layout
  | [] => []
  | s :: ss => s.layout :: stmtsLayouts ss

/-- The layout of markup. -/
def Markup.layout : Markup → Layout
  | .element element => element.layout
  | .fragment span children => .mk .markup span (childrenLayouts children)

/-- The layout of an element. -/
def Element.layout : Element → Layout
  | .mk span _ attributes children =>
    .mk .markup span (attributesLayouts attributes ++ childrenLayouts children)

/-- The layout of the value of an attribute. -/
def Attribute.layouts : Attribute → List Layout
  | .spread value => [value.layout]
  | .named _ value => value.layouts

/-- The layouts of the values of attributes. -/
def attributesLayouts : List Attribute → List Layout
  | [] => []
  | a :: attributes => a.layouts ++ attributesLayouts attributes

/-- The layout of a value of an attribute that has parts. -/
def AttributeValue.layouts : AttributeValue → List Layout
  | .bare | .text _ | .empty => []
  | .expr value => [value.layout]
  | .markup m => [m.layout]

/-- The layout of a child that has parts. -/
def Child.layouts : Child → List Layout
  | .text _ | .empty => []
  | .markup m => [m.layout]
  | .expr value | .spread value => [value.layout]

/-- The layouts of children. -/
def childrenLayouts : List Child → List Layout
  | [] => []
  | child :: children => child.layouts ++ childrenLayouts children

end

/-- The layout of a module, which takes all of its text. -/
def Module.layout (text : List Char) (m : Module) : Layout :=
  .mk .plain ⟨0, byteLength text⟩ (stmtsLayouts m.statements)

/-! ## Outermost markup -/

open Layout

/-- Markup is markup. -/
theorem Markup.isMarkup_layout (m : Markup) : m.layout.isMarkup = true := by
  rcases m with ⟨span, tag, attributes, children⟩ | ⟨span, children⟩ <;> rfl

/-- Types have no markup. -/
theorem outermostOf_typeLayouts (types : Option Span) :
    outermostOf isMarkup (typeLayouts types) = [] := by
  cases types <;> rfl

/-- Nor has what a type says of an expression. -/
theorem TypeMark.outermostOf_layouts (mark : TypeMark) :
    outermostOf isMarkup mark.layouts = [] := by
  cases mark <;> rfl

/-- The layout of a key has the markup of the key. -/
theorem outermost_key (isComputed : Bool) (key : Expr) :
    (Layout.mk (if isComputed || key.isName then .plain else .token) key.span
      [key.layout]).outermost isMarkup = key.layout.outermost isMarkup := by
  split
  · rw [outermost_plain, outermostOf_cons, outermostOf_nil, List.append_nil]
  · rw [outermost_token, outermostOf_cons, outermostOf_nil, List.append_nil]

mutual

/-- The outermost markup of an expression is that of its layout. -/
theorem Expr.outermost_layout :
    ∀ e : Expr, e.layout.outermost isMarkup = e.markups.map Markup.layout
  | .literal _ _ | .ident _ _ | .metaProperty _ _ _ | .superRef _ | .thisRef _ => rfl
  | .template _ _ es | .sequence _ es => outermostOf_exprsLayouts es
  | .array _ items => outermostOf_itemsLayouts items
  | .object _ properties => outermostOf_propertiesLayouts properties
  | .arrow _ _ _ params body | .function _ _ _ params body => by
    simp [Expr.layout, Expr.markups, outermostOf_exprsLayouts params, body.outermostOf_layouts]
  | .classExpr _ parts => outermostOf_stmtsLayouts parts
  | .assign _ _ e e' | .binary _ _ e e' | .index _ e e' _ => by
    simp [Expr.layout, Expr.markups, e.outermost_layout, e'.outermost_layout]
  | .update _ _ _ e | .unary _ _ e | .hasPrivate _ _ e | .await _ e | .chain _ e | .paren _ e
  | .member _ e _ _ => by simp [Expr.layout, Expr.markups, e.outermost_layout]
  | .conditional _ test consequent alternate => by
    simp [Expr.layout, Expr.markups, test.outermost_layout, consequent.outermost_layout,
      alternate.outermost_layout]
  | .yield _ _ operand => outermostOf_optionLayouts operand
  | .call _ callee types arguments _ | .construct _ callee types arguments => by
    simp [Expr.layout, Expr.markups, callee.outermost_layout, outermostOf_append,
      outermostOf_typeLayouts types, outermostOf_itemsLayouts arguments]
  | .importCall _ _ source options => by
    simp [Expr.layout, Expr.markups, source.outermost_layout, outermostOf_optionLayouts options]
  | .tagged _ tag types _ values => by
    simp [Expr.layout, Expr.markups, tag.outermost_layout, outermostOf_append,
      outermostOf_typeLayouts types, outermostOf_exprsLayouts values]
  | .typed _ mark operand => by
    simp [Expr.layout, Expr.markups, outermostOf_append, mark.outermostOf_layouts,
      operand.outermost_layout]
  | .markup m => outermost_of_pos m.isMarkup_layout

/-- The same for an expression that may be missing. -/
theorem outermostOf_optionLayouts : ∀ e : Option Expr,
    outermostOf isMarkup (optionLayouts e) = (optionMarkups e).map Markup.layout
  | none => rfl
  | some e => by simp [optionLayouts, optionMarkups, e.outermost_layout]

/-- The same for expressions. -/
theorem outermostOf_exprsLayouts : ∀ es : List Expr,
    outermostOf isMarkup (exprsLayouts es) = (exprsMarkups es).map Markup.layout
  | [] => rfl
  | e :: es => by
    simp [exprsLayouts, exprsMarkups, e.outermost_layout, outermostOf_exprsLayouts es]

/-- The same for an item. -/
theorem Item.outermostOf_layouts : ∀ item : Item,
    outermostOf isMarkup item.layouts = item.markups.map Markup.layout
  | .hole => rfl
  | .value value | .spread value => by simp [Item.layouts, Item.markups, value.outermost_layout]

/-- The same for items. -/
theorem outermostOf_itemsLayouts : ∀ items : List Item,
    outermostOf isMarkup (itemsLayouts items) = (itemsMarkups items).map Markup.layout
  | [] => rfl
  | item :: items => by
    simp [itemsLayouts, itemsMarkups, outermostOf_append, item.outermostOf_layouts,
      outermostOf_itemsLayouts items]

/-- The same for a property. -/
theorem Property.outermostOf_layouts : ∀ property : Property,
    outermostOf isMarkup property.layouts = property.markups.map Markup.layout
  | .spread value | .shorthand value => by
    simp [Property.layouts, Property.markups, value.outermost_layout]
  | .field key isComputed value => by
    rw [Property.layouts, Property.markups, outermostOf_cons, outermost_key, outermostOf_cons,
      outermostOf_nil, List.append_nil, key.outermost_layout, value.outermost_layout,
      List.map_append]
  | .shorthandDefault key value | .method _ key value => by
    simp [Property.layouts, Property.markups, key.outermost_layout, value.outermost_layout]

/-- The same for properties. -/
theorem outermostOf_propertiesLayouts : ∀ properties : List Property,
    outermostOf isMarkup (propertiesLayouts properties) =
      (propertiesMarkups properties).map Markup.layout
  | [] => rfl
  | property :: properties => by
    simp [propertiesLayouts, propertiesMarkups, outermostOf_append, property.outermostOf_layouts,
      outermostOf_propertiesLayouts properties]

/-- The same for a body. -/
theorem Body.outermostOf_layouts : ∀ body : Body,
    outermostOf isMarkup body.layouts = body.markups.map Markup.layout
  | .missing => rfl
  | .expr value => by simp [Body.layouts, Body.markups, value.outermost_layout]
  | .block _ statements => by
    simp [Body.layouts, Body.markups, outermostOf_stmtsLayouts statements]

/-- The same for a statement. -/
theorem Stmt.outermost_layout :
    ∀ s : Stmt, s.layout.outermost isMarkup = s.markups.map Markup.layout
  | .expr _ value => by simp [Stmt.layout, Stmt.markups, value.outermost_layout]
  | .directive _ => rfl
  | .ret _ value => outermostOf_optionLayouts value
  | .compound _ parts => outermostOf_stmtsLayouts parts
  | .operand value => value.outermost_layout

/-- The same for statements. -/
theorem outermostOf_stmtsLayouts : ∀ ss : List Stmt,
    outermostOf isMarkup (stmtsLayouts ss) = (stmtsMarkups ss).map Markup.layout
  | [] => rfl
  | s :: ss => by
    simp [stmtsLayouts, stmtsMarkups, s.outermost_layout, outermostOf_stmtsLayouts ss]

end

/-- The outermost markup of a module is that of its layout. -/
theorem Module.outermost_layout (text : List Char) (m : Module) :
    (m.layout text).outermost isMarkup = m.markups.map Markup.layout :=
  outermostOf_stmtsLayouts m.statements

/-! ## Stretches -/

/-- The layout of markup has its span. -/
theorem Markup.span_layout (m : Markup) : m.layout.span = m.span := by
  rcases m with ⟨span, tag, attributes, children⟩ | ⟨span, children⟩ <;> rfl

/-- The layout of an expression has its span. -/
theorem Expr.span_layout (e : Expr) : e.layout.span = e.span := by
  cases e with
  | markup m => exact m.span_layout
  | _ => rfl

/-- The body of a function is one part, which begins where the body does. -/
theorem Body.exists_layouts_eq {body : Body} {bodyStart : Nat} (h : body.start? = some bodyStart) :
    ∃ x, body.layouts = [x] ∧ x.span.start = bodyStart := by
  cases body with
  | missing => cases h
  | expr value =>
    obtain rfl : value.span.start = bodyStart := Option.some.inj h
    exact ⟨value.layout, rfl, by rw [value.span_layout]⟩
  | block span statements =>
    obtain rfl : span.start = bodyStart := Option.some.inj h
    exact ⟨_, rfl, rfl⟩

/-- A stretch of the source that keeps its text belongs to a part. -/
inductive Stretch.Of : Stretch → Layout → Prop
  | classText (span : Span) (parts : List Stmt) :
      Of (.classText span parts) (.mk .plain span (stmtsLayouts parts))
  | target (e : Expr) : Of (.target e) e.layout
  | method (span : Span) (key function : Expr) :
      Of (.method span key function) (.mk .plain span [key.layout, function.layout])
  | importCall (span : Span) (source : Expr) (options : Option Expr) :
      Of (.importCall span source options)
        (.mk .plain span (source.layout :: optionLayouts options))
  | head (span paramSpan : Span) (params : List Expr) (body : Body) (bodyStart : Nat)
      (h : body.start? = some bodyStart) :
      Of (.head span params bodyStart)
        (.mk .function span (.mk .plain paramSpan (exprsLayouts params) :: body.layouts))
  | body (span : Span) (statements : List Stmt) :
      Of (.body span statements) (.mk .plain span (stmtsLayouts statements))
  | params (span : Span) (params : List Expr) :
      Of (.params span params) (.mk .plain span (exprsLayouts params))

/-- A stretch is a whole part and has all its markup, or it is a function up to its body and has the
markup of the parameters. -/
theorem Stretch.Of.cases {stretch : Stretch} {x : Layout} (h : stretch.Of x) :
    (stretch.span = x.span ∧ stretch.markups.map Markup.layout = x.outermost isMarkup) ∨
      ∃ span params body, x = .mk .function span [params, body] ∧
        stretch.span = ⟨span.start, body.span.start⟩ ∧
        stretch.markups.map Markup.layout = params.outermost isMarkup := by
  cases h with
  | classText span parts => exact .inl ⟨rfl, (outermostOf_stmtsLayouts parts).symm⟩
  | target e => exact .inl ⟨e.span_layout.symm, e.outermost_layout.symm⟩
  | method span key function =>
    refine .inl ⟨rfl, ?_⟩
    rw [Stretch.markups, List.map_append, outermost_plain, outermostOf_cons, outermostOf_cons,
      outermostOf_nil, List.append_nil, key.outermost_layout, function.outermost_layout]
  | importCall span source options =>
    refine .inl ⟨rfl, ?_⟩
    rw [Stretch.markups, List.map_append, outermost_plain, outermostOf_cons,
      source.outermost_layout, outermostOf_optionLayouts]
  | head span paramSpan params body bodyStart h =>
    obtain ⟨x, hbody, hstart⟩ := Body.exists_layouts_eq h
    refine .inr ⟨span, .mk .plain paramSpan (exprsLayouts params), x, by rw [hbody], ?_, ?_⟩
    · rw [Stretch.span, hstart]
    · exact (outermostOf_exprsLayouts params).symm
  | body span statements => exact .inl ⟨rfl, (outermostOf_stmtsLayouts statements).symm⟩
  | params span params => exact .inl ⟨rfl, (outermostOf_exprsLayouts params).symm⟩

/-- The markup of a stretch is outermost markup of the part that it belongs to. -/
theorem Stretch.Of.layout_mem_outermost {stretch : Stretch} {x : Layout} (h : stretch.Of x)
    {m : Markup} (hm : m ∈ stretch.markups) : m.layout ∈ x.outermost isMarkup := by
  have hlayout : m.layout ∈ stretch.markups.map Markup.layout := List.mem_map_of_mem hm
  rcases h.cases with ⟨-, hmarkups⟩ | ⟨span, params, body, rfl, -, hmarkups⟩
  · rw [hmarkups] at hlayout
    exact hlayout
  · rw [hmarkups] at hlayout
    rw [outermost_function, outermostOf_cons]
    exact List.mem_append_left _ hlayout

end Syntax

end MarkupCompiler
