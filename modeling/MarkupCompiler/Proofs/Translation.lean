import MarkupCompiler.Emit.Markup
import MarkupCompiler.Proofs.Pieces

/-!
# Trees that are moved

A tree that is moved by a number of bytes is the same tree with the number added to all its offsets.
What the compiler reads off a tree other than its offsets is the same before and after the move, and
what it takes out of a tree is moved with the tree.
-/

namespace MarkupCompiler

/-- A span that is moved by a number of bytes. -/
def Span.shift (k : Nat) (span : Span) : Span := ⟨span.start + k, span.stop + k⟩

namespace Syntax

/-- A type that is moved. -/
def TypeMark.shift (k : Nat) : TypeMark → TypeMark
  | asType span => asType (span.shift k)
  | satisfies span => satisfies (span.shift k)
  | assertion span => assertion (span.shift k)
  | nonNull => nonNull
  | instantiation span => instantiation (span.shift k)

mutual

/-- An expression that is moved. -/
def Expr.shift (k : Nat) : Expr → Expr
  | .literal span value => .literal (span.shift k) value
  | .template span quasis values => .template (span.shift k) quasis (shiftExprs k values)
  | .ident span name => .ident (span.shift k) name
  | .metaProperty span object property => .metaProperty (span.shift k) object property
  | .superRef span => .superRef (span.shift k)
  | .thisRef span => .thisRef (span.shift k)
  | .array span items => .array (span.shift k) (shiftItems k items)
  | .object span properties => .object (span.shift k) (shiftProperties k properties)
  | .arrow span isAsync paramSpan params body =>
    .arrow (span.shift k) isAsync (paramSpan.shift k) (shiftExprs k params) (body.shift k)
  | .function span kind paramSpan params body =>
    .function (span.shift k) kind (paramSpan.shift k) (shiftExprs k params) (body.shift k)
  | .classExpr span parts => .classExpr (span.shift k) (shiftStmts k parts)
  | .assign span op target value => .assign (span.shift k) op (target.shift k) (value.shift k)
  | .update span op isBefore target => .update (span.shift k) op isBefore (target.shift k)
  | .unary span op operand => .unary (span.shift k) op (operand.shift k)
  | .binary span op left right => .binary (span.shift k) op (left.shift k) (right.shift k)
  | .hasPrivate span name right => .hasPrivate (span.shift k) name (right.shift k)
  | .conditional span test consequent alternate =>
    .conditional (span.shift k) (test.shift k) (consequent.shift k) (alternate.shift k)
  | .sequence span parts => .sequence (span.shift k) (shiftExprs k parts)
  | .await span operand => .await (span.shift k) (operand.shift k)
  | .yield span isDelegate operand => .yield (span.shift k) isDelegate (shiftOption k operand)
  | .call span callee types arguments isOptional =>
    .call (span.shift k) (callee.shift k) (types.map (Span.shift k)) (shiftItems k arguments)
      isOptional
  | .construct span callee types arguments =>
    .construct (span.shift k) (callee.shift k) (types.map (Span.shift k)) (shiftItems k arguments)
  | .importCall span hasPhase source options =>
    .importCall (span.shift k) hasPhase (source.shift k) (shiftOption k options)
  | .tagged span tag types quasis values =>
    .tagged (span.shift k) (tag.shift k) (types.map (Span.shift k)) quasis (shiftExprs k values)
  | .chain span inner => .chain (span.shift k) (inner.shift k)
  | .paren span inner => .paren (span.shift k) (inner.shift k)
  | .member span object name isOptional => .member (span.shift k) (object.shift k) name isOptional
  | .index span object key isOptional =>
    .index (span.shift k) (object.shift k) (key.shift k) isOptional
  | .typed span mark inner => .typed (span.shift k) (mark.shift k) (inner.shift k)
  | .markup m => .markup (m.shift k)

/-- An expression that may be missing, moved. -/
def shiftOption (k : Nat) : Option Expr → Option Expr
  | none => none
  | some e => some (e.shift k)

/-- Expressions that are moved. -/
def shiftExprs (k : Nat) : List Expr → List Expr
  | [] => []
  | e :: es => e.shift k :: shiftExprs k es

/-- An array element or argument that is moved. -/
def Item.shift (k : Nat) : Item → Item
  | .hole => .hole
  | .value value => .value (value.shift k)
  | .spread value => .spread (value.shift k)

/-- Array elements or arguments that are moved. -/
def shiftItems (k : Nat) : List Item → List Item
  | [] => []
  | item :: items => item.shift k :: shiftItems k items

/-- A property that is moved. -/
def Property.shift (k : Nat) : Property → Property
  | .spread value => .spread (value.shift k)
  | .field key isComputed value => .field (key.shift k) isComputed (value.shift k)
  | .shorthand value => .shorthand (value.shift k)
  | .shorthandDefault name value => .shorthandDefault (name.shift k) (value.shift k)
  | .method span key function => .method (span.shift k) (key.shift k) (function.shift k)

/-- Properties that are moved. -/
def shiftProperties (k : Nat) : List Property → List Property
  | [] => []
  | property :: properties => property.shift k :: shiftProperties k properties

/-- The body of a function, moved. -/
def Body.shift (k : Nat) : Body → Body
  | .missing => .missing
  | .expr value => .expr (value.shift k)
  | .block span statements => .block (span.shift k) (shiftStmts k statements)

/-- A statement that is moved. -/
def Stmt.shift (k : Nat) : Stmt → Stmt
  | .expr span value => .expr (span.shift k) (value.shift k)
  | .directive span => .directive (span.shift k)
  | .ret span value => .ret (span.shift k) (shiftOption k value)
  | .compound span parts => .compound (span.shift k) (shiftStmts k parts)
  | .operand value => .operand (value.shift k)

/-- Statements that are moved. -/
def shiftStmts (k : Nat) : List Stmt → List Stmt
  | [] => []
  | s :: ss => s.shift k :: shiftStmts k ss

/-- Markup that is moved. -/
def Markup.shift (k : Nat) : Markup → Markup
  | .element e => .element (e.shift k)
  | .fragment span children => .fragment (span.shift k) (shiftChildren k children)

/-- An element that is moved. -/
def Element.shift (k : Nat) : Element → Element
  | .mk span tag attributes children =>
    .mk (span.shift k) tag (shiftAttributes k attributes) (shiftChildren k children)

/-- An attribute that is moved. -/
def Attribute.shift (k : Nat) : Attribute → Attribute
  | .spread value => .spread (value.shift k)
  | .named name value => .named name (value.shift k)

/-- Attributes that are moved. -/
def shiftAttributes (k : Nat) : List Attribute → List Attribute
  | [] => []
  | a :: attributes => a.shift k :: shiftAttributes k attributes

/-- The value of an attribute, moved. -/
def AttributeValue.shift (k : Nat) : AttributeValue → AttributeValue
  | .bare => .bare
  | .text raw => .text raw
  | .expr value => .expr (value.shift k)
  | .empty => .empty
  | .markup m => .markup (m.shift k)

/-- A child that is moved. -/
def Child.shift (k : Nat) : Child → Child
  | .text raw => .text raw
  | .markup m => .markup (m.shift k)
  | .expr value => .expr (value.shift k)
  | .empty => .empty
  | .spread value => .spread (value.shift k)

/-- Children that are moved. -/
def shiftChildren (k : Nat) : List Child → List Child
  | [] => []
  | child :: children => child.shift k :: shiftChildren k children

end

variable (k : Nat)

/-! ## Lists -/

/-- An expression that may be missing is moved if it is there. -/
@[simp] theorem shiftOption_eq_map (e : Option Expr) : shiftOption k e = e.map (Expr.shift k) := by
  cases e with
  | none => rfl
  | some e => rfl

/-- What is done to a list by its recursion is done to each member. -/
theorem eq_map_of_cons {α β : Type} {f : α → β} {all : List α → List β} (hnil : all [] = [])
    (hcons : ∀ a as, all (a :: as) = f a :: all as) (as : List α) : all as = as.map f := by
  induction as with
  | nil => exact hnil
  | cons a as ih => rw [hcons, ih, List.map_cons]

/-- Expressions are moved one by one. -/
@[simp] theorem shiftExprs_eq_map (es : List Expr) : shiftExprs k es = es.map (Expr.shift k) :=
  eq_map_of_cons rfl (fun _ _ => rfl) es

/-- Array elements are moved one by one. -/
@[simp] theorem shiftItems_eq_map (items : List Item) :
    shiftItems k items = items.map (Item.shift k) :=
  eq_map_of_cons rfl (fun _ _ => rfl) items

/-- Properties are moved one by one. -/
@[simp] theorem shiftProperties_eq_map (properties : List Property) :
    shiftProperties k properties = properties.map (Property.shift k) :=
  eq_map_of_cons rfl (fun _ _ => rfl) properties

/-- Statements are moved one by one. -/
@[simp] theorem shiftStmts_eq_map (ss : List Stmt) : shiftStmts k ss = ss.map (Stmt.shift k) :=
  eq_map_of_cons rfl (fun _ _ => rfl) ss

/-- Attributes are moved one by one. -/
@[simp] theorem shiftAttributes_eq_map (attributes : List Attribute) :
    shiftAttributes k attributes = attributes.map (Attribute.shift k) :=
  eq_map_of_cons rfl (fun _ _ => rfl) attributes

/-- Children are moved one by one. -/
@[simp] theorem shiftChildren_eq_map (children : List Child) :
    shiftChildren k children = children.map (Child.shift k) :=
  eq_map_of_cons rfl (fun _ _ => rfl) children

/-! ## Spans and outermost markup -/

/-- The span of markup is moved with it. -/
@[simp] theorem Markup.span_shift (m : Markup) : (m.shift k).span = m.span.shift k := by
  rcases m with ⟨span, tag, attributes, children⟩ | ⟨span, children⟩
  · rfl
  · rfl

/-- The span of an expression is moved with it. -/
@[simp] theorem Expr.span_shift (e : Expr) : (e.shift k).span = e.span.shift k := by
  cases e with
  | markup m => exact m.span_shift k
  | _ => rfl

/-- Lists of markup that are moved are moved one after the other. -/
theorem append_shift {ms ms' moved moved' : List Markup} (h : moved = ms.map (Markup.shift k))
    (h' : moved' = ms'.map (Markup.shift k)) :
    moved ++ moved' = (ms ++ ms').map (Markup.shift k) := by
  rw [h, h', List.map_append]

mutual

/-- The outermost markup of an expression is moved with it. -/
theorem Expr.markups_shift : ∀ e : Expr, (e.shift k).markups = e.markups.map (Markup.shift k)
  | .literal _ _ | .ident _ _ | .metaProperty _ _ _ | .superRef _ | .thisRef _ | .markup _ => rfl
  | .template _ _ es | .sequence _ es => exprsMarkups_shift es
  | .array _ items => itemsMarkups_shift items
  | .object _ properties => propertiesMarkups_shift properties
  | .arrow _ _ _ params body | .function _ _ _ params body =>
    append_shift k (exprsMarkups_shift params) body.markups_shift
  | .classExpr _ parts => stmtsMarkups_shift parts
  | .assign _ _ e e' | .binary _ _ e e' | .index _ e e' _ =>
    append_shift k e.markups_shift e'.markups_shift
  | .update _ _ _ e | .unary _ _ e | .hasPrivate _ _ e | .await _ e | .chain _ e | .paren _ e
  | .member _ e _ _ | .typed _ _ e => e.markups_shift
  | .conditional _ test consequent alternate =>
    append_shift k test.markups_shift
      (append_shift k consequent.markups_shift alternate.markups_shift)
  | .yield _ _ operand => optionMarkups_shift operand
  | .call _ callee _ arguments _ | .construct _ callee _ arguments =>
    append_shift k callee.markups_shift (itemsMarkups_shift arguments)
  | .importCall _ _ source options =>
    append_shift k source.markups_shift (optionMarkups_shift options)
  | .tagged _ tag _ _ values => append_shift k tag.markups_shift (exprsMarkups_shift values)

/-- The same for an expression that may be missing. -/
theorem optionMarkups_shift :
    ∀ e : Option Expr, optionMarkups (shiftOption k e) = (optionMarkups e).map (Markup.shift k)
  | none => rfl
  | some e => e.markups_shift

/-- The same for expressions. -/
theorem exprsMarkups_shift :
    ∀ es : List Expr, exprsMarkups (shiftExprs k es) = (exprsMarkups es).map (Markup.shift k)
  | [] => rfl
  | e :: es => append_shift k e.markups_shift (exprsMarkups_shift es)

/-- The same for an array element. -/
theorem Item.markups_shift :
    ∀ item : Item, (item.shift k).markups = item.markups.map (Markup.shift k)
  | .hole => rfl
  | .value value | .spread value => value.markups_shift

/-- The same for array elements. -/
theorem itemsMarkups_shift : ∀ items : List Item,
    itemsMarkups (shiftItems k items) = (itemsMarkups items).map (Markup.shift k)
  | [] => rfl
  | item :: items => append_shift k item.markups_shift (itemsMarkups_shift items)

/-- The same for a property. -/
theorem Property.markups_shift :
    ∀ property : Property, (property.shift k).markups = property.markups.map (Markup.shift k)
  | .spread value | .shorthand value => value.markups_shift
  | .field key _ value | .shorthandDefault key value | .method _ key value =>
    append_shift k key.markups_shift value.markups_shift

/-- The same for properties. -/
theorem propertiesMarkups_shift : ∀ properties : List Property,
    propertiesMarkups (shiftProperties k properties) =
      (propertiesMarkups properties).map (Markup.shift k)
  | [] => rfl
  | property :: properties =>
    append_shift k property.markups_shift (propertiesMarkups_shift properties)

/-- The same for the body of a function. -/
theorem Body.markups_shift :
    ∀ body : Body, (body.shift k).markups = body.markups.map (Markup.shift k)
  | .missing => rfl
  | .expr value => value.markups_shift
  | .block _ statements => stmtsMarkups_shift statements

/-- The same for a statement. -/
theorem Stmt.markups_shift : ∀ s : Stmt, (s.shift k).markups = s.markups.map (Markup.shift k)
  | .expr _ value | .operand value => value.markups_shift
  | .directive _ => rfl
  | .ret _ value => optionMarkups_shift value
  | .compound _ parts => stmtsMarkups_shift parts

/-- The same for statements. -/
theorem stmtsMarkups_shift :
    ∀ ss : List Stmt, stmtsMarkups (shiftStmts k ss) = (stmtsMarkups ss).map (Markup.shift k)
  | [] => rfl
  | s :: ss => append_shift k s.markups_shift (stmtsMarkups_shift ss)

end

/-- A stretch of the source that is moved. -/
def Stretch.shift : Stretch → Stretch
  | .classText span parts => .classText (span.shift k) (shiftStmts k parts)
  | .target e => .target (e.shift k)
  | .method span key function => .method (span.shift k) (key.shift k) (function.shift k)
  | .importCall span source options =>
    .importCall (span.shift k) (source.shift k) (shiftOption k options)
  | .head span es bodyStart => .head (span.shift k) (shiftExprs k es) (bodyStart + k)
  | .body span statements => .body (span.shift k) (shiftStmts k statements)
  | .params span es => .params (span.shift k) (shiftExprs k es)

/-- The span of a stretch is moved with it. -/
@[simp] theorem Stretch.span_shift (stretch : Stretch) :
    (stretch.shift k).span = stretch.span.shift k := by
  cases stretch with
  | target e => exact e.span_shift k
  | _ => rfl

/-- The markup of a stretch is moved with it. -/
theorem Stretch.markups_shift (stretch : Stretch) :
    (stretch.shift k).markups = stretch.markups.map (Markup.shift k) := by
  cases stretch with
  | classText span parts => exact stmtsMarkups_shift k parts
  | target e => exact e.markups_shift k
  | method span key function => exact (Property.method span key function).markups_shift k
  | importCall span source options =>
    exact append_shift k (source.markups_shift k) (optionMarkups_shift k options)
  | head span es bodyStart => exact exprsMarkups_shift k es
  | body span statements => exact stmtsMarkups_shift k statements
  | params span es => exact exprsMarkups_shift k es

/-! ## What is read off an expression -/

namespace Expr

/-- What is in parentheses is moved with them. -/
theorem unparenthesized_shift (e : Expr) :
    (e.shift k).unparenthesized = e.unparenthesized.shift k := by
  cases e with
  | paren span inner => exact inner.unparenthesized_shift
  | _ => rfl

/-- A moved path is reactive if it was. -/
@[simp] theorem isReactivePath_shift (e : Expr) :
    (e.shift k).isReactivePath = e.isReactivePath := by
  cases e with
  | member _ owner | index _ owner => exact owner.isReactivePath_shift
  | _ => rfl

/-- A moved expression is an accessor if it was. -/
@[simp] theorem isAccessor_shift (e : Expr) : (e.shift k).isAccessor = e.isAccessor := by
  cases e with
  | member _ owner | index _ owner => exact owner.isReactivePath_shift k
  | _ => rfl

/-- A moved expression is a reference if it was. -/
@[simp] theorem isReference_shift (e : Expr) : (e.shift k).isReference = e.isReference := by
  cases e <;> rfl

/-- The value of a moved expression may change if it might. -/
@[simp] theorem mayChange_shift (e : Expr) : (e.shift k).mayChange = e.mayChange := by
  cases e with
  | call span callee types arguments isOptional =>
    rw [shift, mayChange, mayChange, unparenthesized_shift, isReference_shift]
  | chain span inner =>
    cases inner with
    | call span callee types arguments isOptional => exact callee.isReference_shift k
    | _ => rfl
  | paren span inner => exact inner.mayChange_shift
  | typed span mark inner =>
    have hinner := inner.mayChange_shift
    cases mark with
    | assertion | instantiation => rfl
    | _ => exact hinner
  | _ => rfl

/-- A moved expression is a function if it was. -/
@[simp] theorem isDeferred_shift (e : Expr) : (e.shift k).isDeferred = e.isDeferred := by
  unfold isDeferred
  rw [unparenthesized_shift]
  cases e.unparenthesized <;> rfl

/-- A moved constant has its value. -/
@[simp] theorem constant?_shift (e : Expr) : (e.shift k).constant? = e.constant? := by
  cases e with
  | literal span value => cases value <;> rfl
  | template span quasis values => cases values <;> rfl
  | paren span inner => exact inner.constant?_shift
  | _ => rfl

end Expr

/-! ## What is read off markup -/

/-- A moved attribute has its constant value. -/
@[simp] theorem AttributeValue.constant?_shift (value : AttributeValue) :
    (value.shift k).constant? = value.constant? := by
  cases value with
  | expr e => exact e.constant?_shift k
  | _ => rfl

/-- A moved attribute is left out if it was. -/
@[simp] theorem isIgnored_shift (name : String) (value : AttributeValue) :
    isIgnored name (value.shift k) = isIgnored name value := by
  cases value <;> rfl

/-- A moved attribute is static if it was. -/
@[simp] theorem Attribute.isStatic_shift (a : Attribute) : (a.shift k).isStatic = a.isStatic := by
  cases a with
  | spread value => rfl
  | named name value => simp [Attribute.shift, Attribute.isStatic]

/-- A moved element has its tag. -/
@[simp] theorem Element.tag_shift (e : Element) : (e.shift k).tag = e.tag := by
  obtain ⟨span, tag, attributes, children⟩ := e
  rfl

/-- A moved element is a component if it was. -/
@[simp] theorem Element.isComponent_shift (e : Element) :
    (e.shift k).isComponent = e.isComponent := by
  rw [isComponent, tag_shift, isComponent]

/-- The attributes of an element are moved with it. -/
@[simp] theorem Element.attributes_shift (e : Element) :
    (e.shift k).attributes = e.attributes.map (Attribute.shift k) := by
  obtain ⟨span, tag, attributes, children⟩ := e
  exact shiftAttributes_eq_map k attributes

/-- The children of an element are moved with it. -/
@[simp] theorem Element.children_shift (e : Element) :
    (e.shift k).children = e.children.map (Child.shift k) := by
  obtain ⟨span, tag, attributes, children⟩ := e
  exact shiftChildren_eq_map k children

mutual

/-- A moved element is static if it was. -/
@[simp] theorem Element.isStatic_shift : ∀ e : Element, (e.shift k).isStatic = e.isStatic
  | .mk _ tag attributes children => by
    rw [Element.shift, Element.isStatic, Element.isStatic, childrenAreStatic_shift children,
      shiftAttributes_eq_map, List.all_map]
    congr 2
    refine congrArg attributes.all (funext fun a => a.isStatic_shift k)

/-- So is moved markup. -/
theorem Markup.isStatic_shift : ∀ m : Markup, (m.shift k).isStatic = m.isStatic
  | .element e => e.isStatic_shift
  | .fragment _ _ => rfl

/-- So is a moved child. -/
theorem Child.isStatic_shift : ∀ child : Child, (child.shift k).isStatic = child.isStatic
  | .text _ | .expr _ | .empty | .spread _ => rfl
  | .markup m => m.isStatic_shift

/-- So are moved children. -/
theorem childrenAreStatic_shift : ∀ children : List Child,
    childrenAreStatic (shiftChildren k children) = childrenAreStatic children
  | [] => rfl
  | child :: children => by
    rw [shiftChildren, childrenAreStatic, childrenAreStatic, child.isStatic_shift,
      childrenAreStatic_shift children]

end

/-! ## Lists -/

/-- A list that is moved. -/
def ListShape.shift (list : ListShape) : ListShape := ⟨list.array.shift k, list.callback.shift k⟩

/-- The template of an item, moved. -/
def ItemShape.shift (item : ItemShape) : ItemShape :=
  ⟨item.paramSpan.shift k, item.params.map (Expr.shift k), item.element.shift k⟩

/-- The array and callback of a list are moved with it. -/
theorem Expr.listShape?_shift (e : Expr) :
    (e.shift k).listShape? = e.listShape?.map (ListShape.shift k) := by
  unfold Expr.listShape?
  rw [unparenthesized_shift]
  cases e.unparenthesized with
  | call span callee types arguments isOptional =>
    cases callee with
    | member span items name isOptionalName =>
      rcases name with name | name <;> rcases isOptionalName <;>
        rcases arguments with _ | ⟨_ | value | value, _ | ⟨argument, arguments⟩⟩ <;>
        rcases isOptional <;> try rfl
      rw [shift, shift]
      dsimp only [Item.shift, shiftItems]
      split <;> rfl
    | _ => rfl
  | _ => rfl

/-- The element that an expression is, is moved with it. -/
theorem Expr.element?_shift (e : Expr) :
    (e.shift k).element? = e.element?.map (Element.shift k) := by
  unfold Expr.element?
  rw [unparenthesized_shift]
  cases e.unparenthesized with
  | markup m => cases m <;> rfl
  | _ => rfl

/-- A moved statement is a directive if it was. -/
theorem Stmt.isDirective_shift (s : Stmt) : (s.shift k).isDirective = s.isDirective := by
  cases s <;> rfl

/-- The element that a body returns is moved with it. -/
theorem Body.element?_shift (body : Body) :
    (body.shift k).element? = body.element?.map (Element.shift k) := by
  cases body with
  | missing => rfl
  | expr value => exact value.element?_shift k
  | block span statements =>
    have hfilter : (shiftStmts k statements).filter (!·.isDirective) =
        (statements.filter (!·.isDirective)).map (Stmt.shift k) := by
      rw [shiftStmts_eq_map, List.filter_map]
      congr 1
      refine List.filter_congr fun s _ => ?_
      rw [Function.comp_apply, s.isDirective_shift]
    rw [shift, element?, element?, hfilter]
    generalize statements.filter (!·.isDirective) = rest
    rcases rest with _ | ⟨s, _ | ⟨s', rest⟩⟩
    · rfl
    · rcases s with _ | _ | ⟨span, _ | value⟩ | _ | _
      case ret.some => exact value.element?_shift k
      all_goals rfl
    · rcases s with _ | _ | ⟨span, _ | value⟩ | _ | _ <;> rfl

/-- The template of an item is moved with the callback. -/
theorem Expr.itemShape?_shift (callback : Expr) :
    (callback.shift k).itemShape? = callback.itemShape?.map (ItemShape.shift k) := by
  unfold Expr.itemShape?
  rw [unparenthesized_shift]
  cases callback.unparenthesized with
  | arrow span isAsync paramSpan params body =>
    cases isAsync with
    | true => rfl
    | false =>
      rw [shift]
      dsimp only
      rw [body.element?_shift, Option.map_map, Option.map_map, shiftExprs_eq_map]
      rfl
  | function span kind paramSpan params body =>
    rw [shift]
    dsimp only
    split
    · rfl
    · rw [body.element?_shift, Option.map_map, Option.map_map, shiftExprs_eq_map]
      rfl
  | _ => rfl

/-- The key of an element is moved with it. -/
theorem Element.key?_shift (e : Element) :
    (e.shift k).key? = e.key?.map (AttributeValue.shift k) := by
  unfold Element.key?
  rw [attributes_shift, List.findSome?_map, List.map_findSome?]
  refine congrArg e.attributes.findSome? (funext fun a => ?_)
  cases a with
  | spread value => rfl
  | named name value =>
    cases value with
    | bare => rfl
    | _ =>
      dsimp only [Function.comp_apply, Attribute.shift, AttributeValue.shift]
      split <;> rfl

/-! ## Skeletons -/

/-- What fills a slot, moved. -/
def PartValue.shift : PartValue → PartValue
  | .expr value => .expr (value.shift k)
  | .spread value => .spread (value.shift k)
  | .markup m => .markup (m.shift k)

/-- A part that is moved. -/
def Part.shift (part : Part) : Part := ⟨part.path, part.place, part.value.shift k⟩

/-- A piece of a skeleton that is moved. -/
def Piece.shift : Piece → Piece
  | .html text => .html text
  | .slot part => .slot (part.shift k)

/-- Moved pieces have as many markers. -/
theorem markerCount_shift (pieces : List Piece) :
    markerCount (pieces.map (Piece.shift k)) = markerCount pieces := by
  induction pieces with
  | nil => rfl
  | cons piece pieces ih =>
    cases piece with
    | html text => exact ih
    | slot part => exact congrArg (_ + ·) ih

/-- The pieces of a constant do not move. -/
theorem constantPieces_shift (name : String) (value : Constant) :
    constantPieces name value = (constantPieces name value).map (Piece.shift k) := by
  unfold constantPieces
  split <;> rfl

/-- The pieces of a text do not move. -/
theorem textPieces_shift (raw : String) :
    textPieces raw = (textPieces raw).map (Piece.shift k) := by
  unfold textPieces
  dsimp only
  split <;> rfl

/-- The pieces of an attribute are moved with it. -/
theorem Attribute.pieces_shift (path : List Nat) (a : Attribute) :
    (a.shift k).pieces path = (a.pieces path).map (Piece.shift k) := by
  cases a with
  | spread value => rfl
  | named name value =>
    unfold Attribute.shift Attribute.pieces
    dsimp only
    rw [isIgnored_shift, AttributeValue.constant?_shift]
    split
    · rfl
    · cases value.constant? with
      | some constant => exact constantPieces_shift k name constant
      | none => cases value with
        | _ => rfl

/-- A moved child is an element if it was. -/
theorem Child.isElement_shift (child : Child) : (child.shift k).isElement = child.isElement := by
  cases child with
  | markup m => cases m with
    | element e => exact congrArg (!·) (e.isComponent_shift k)
    | fragment span children => rfl
  | _ => rfl

mutual

/-- The pieces of an element are moved with it. -/
theorem Element.pieces_shift (path : List Nat) (next : Nat) :
    ∀ e : Element, (e.shift k).pieces path next = (e.pieces path next).map (Piece.shift k)
  | .mk _ tag attributes children => by
    have hattributes : (shiftAttributes k attributes).flatMap (Attribute.pieces path) =
        (attributes.flatMap (Attribute.pieces path)).map (Piece.shift k) := by
      rw [shiftAttributes_eq_map, List.flatMap_map, List.map_flatMap]
      exact congrArg (List.flatMap · attributes) (funext fun a => a.pieces_shift k path)
    rw [Element.shift, Element.pieces, Element.pieces, hattributes,
      childrenPieces_shift path 0 next children]
    split <;> simp [Piece.shift]

/-- The pieces of markup are moved with it. -/
theorem Markup.pieces_shift (path : List Nat) (index next : Nat) :
    ∀ m : Markup, (m.shift k).pieces path index next =
      (m.pieces path index next).map (Piece.shift k)
  | .element e => by
    rw [Markup.shift, Markup.pieces, Markup.pieces, e.isComponent_shift]
    split
    · rfl
    · exact e.pieces_shift (path ++ [index]) next
  | .fragment _ _ => rfl

/-- The pieces of a child are moved with it. -/
theorem Child.pieces_shift (path : List Nat) (index next : Nat) :
    ∀ child : Child, (child.shift k).pieces path index next =
      (child.pieces path index next).map (Piece.shift k)
  | .text raw => textPieces_shift k raw
  | .markup m => m.pieces_shift path index next
  | .expr _ | .empty | .spread _ => rfl

/-- The pieces of children are moved with them. -/
theorem childrenPieces_shift (path : List Nat) (index next : Nat) :
    ∀ children : List Child, childrenPieces path index next (shiftChildren k children) =
      (childrenPieces path index next children).map (Piece.shift k)
  | [] => rfl
  | child :: children => by
    rw [shiftChildren, childrenPieces, childrenPieces, List.map_append,
      child.pieces_shift path index next, child.isElement_shift, markerCount_shift,
      childrenPieces_shift path _ _ children]

end

/-- Moved pieces are joined like the pieces. -/
theorem joinHtml_shift (pieces : List Piece) :
    joinHtml (pieces.map (Piece.shift k)) = (joinHtml pieces).map (Piece.shift k) := by
  induction pieces with
  | nil => rfl
  | cons piece pieces ih =>
    cases piece with
    | slot part => exact congrArg (_ :: ·) ih
    | html text =>
      rw [List.map_cons, Piece.shift, joinHtml, ih, joinHtml]
      rcases joinHtml pieces with _ | ⟨_ | _, _⟩ <;> rfl

/-- The pieces of a skeleton are moved with the element. -/
theorem Element.skeleton_pieces_shift (next : Nat) (e : Element) :
    ((e.shift k).skeleton next).pieces = (e.skeleton next).pieces.map (Piece.shift k) := by
  rw [Element.skeleton_pieces, Element.skeleton_pieces, e.pieces_shift, joinHtml_shift]

/-- The parts of a skeleton are moved with the element. -/
theorem Element.skeleton_parts_shift (next : Nat) (e : Element) :
    ((e.shift k).skeleton next).parts = (e.skeleton next).parts.map (Part.shift k) := by
  rw [← Element.partsOf_skeleton_pieces, ← Element.partsOf_skeleton_pieces, partsOf, partsOf,
    e.skeleton_pieces_shift, List.filterMap_map, List.map_filterMap]
  refine congrArg (List.filterMap · _) (funext fun piece => ?_)
  cases piece <;> rfl

/-- A moved piece has its HTML. -/
theorem Piece.templateHtml_shift (piece : Piece) :
    (piece.shift k).templateHtml = piece.templateHtml := by
  rcases piece with text | ⟨path, _ | _, value⟩
  · rfl
  · rfl
  · rfl

/-- The template of an element is the same wherever it stands. -/
theorem Element.templateHtml_shift (next : Nat) (e : Element) :
    ((e.shift k).skeleton next).templateHtml = (e.skeleton next).templateHtml := by
  unfold Skeleton.templateHtml
  rw [e.skeleton_pieces_shift, List.map_map]
  exact congrArg String.join (List.map_congr_left fun piece _ => piece.templateHtml_shift k)

/-- The HTML of a static element is the same wherever it stands. -/
theorem Element.staticHtml?_shift (e : Element) : (e.shift k).staticHtml? = e.staticHtml? := by
  unfold Element.staticHtml?
  rw [isStatic_shift, templateHtml_shift]

end Syntax

end MarkupCompiler
