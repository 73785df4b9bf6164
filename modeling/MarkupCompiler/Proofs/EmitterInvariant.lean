import MarkupCompiler.Proofs.Agreement
import MarkupCompiler.Proofs.Constituents
import MarkupCompiler.Proofs.Translation

/-!
# What holds of the code of every tree

A relation between computations that emit code can be followed through all emitters if it goes over
to sequences and holds of the computations that are made of nothing else (`Emit.Relation`). All that
an emitter does besides is to take texts out of the source and to splice code into stretches of it.
So a relation that holds of these, for the parts of a tree and the parts of the same tree at a later
offset (`Emitters.RelateSource`), holds of the code of the two trees (`Emitters.RelateSource.emit`).
A property of computations is the case in which only the first of the two matters
(`Emit.Invariant`, `Emitters.KeepSource`).

The induction is on the layout of the tree: an emitter calls another only for what stands in the
tree that it was given.
-/

namespace MarkupCompiler

open Syntax Layout

/-- A relation between computations that goes over to sequences, and holds of computations that do
nothing, look at the options, or name a template. -/
structure Emit.Relation (R : (α : Type) → Emit α → Emit α → Prop) : Prop where
  pure : ∀ {α : Type} (a : α), R α (Pure.pure a) (Pure.pure a)
  bind : ∀ {α β : Type} {p p' : Emit α} {f f' : α → Emit β}, R α p p' →
    (∀ a, R β (f a) (f' a)) → R β (p >>= f) (p' >>= f')
  options : ∀ {α : Type} {f f' : Env → Emit α},
    (∀ env env' : Env, env.options = env'.options → R α (f env) (f' env')) →
      R α (read >>= f) (read >>= f')
  intern : ∀ text : String, R String (internTemplate text) (internTemplate text)

section

variable {R : (α : Type) → Emit α → Emit α → Prop} (h : Emit.Relation R) {α β γ : Type}
include h

/-- A relation goes over to what is made of results. -/
theorem Emit.Relation.map {p p' : Emit α} {f : α → β} (hp : R α p p') :
    R β (p >>= fun a => Pure.pure (f a)) (p' >>= fun a => Pure.pure (f a)) :=
  h.bind hp fun _ => h.pure _

/-- A relation goes over to lists. -/
theorem Emit.Relation.mapM {f : α → Emit γ} {f' : β → Emit γ} {move : α → β} {xs : List α}
    (hf : ∀ x ∈ xs, R γ (f x) (f' (move x))) :
    R (List γ) (xs.mapM f) ((xs.map move).mapM f') := by
  induction xs with
  | nil => exact h.pure []
  | cons x xs ih =>
    have hrest := ih fun y hy => hf y (List.mem_cons_of_mem x hy)
    rw [List.map_cons, List.mapM_cons, List.mapM_cons]
    exact h.bind (hf x (.head _)) fun _ => h.map hrest

end

/-- A relation holds of what emitters do with the source of a tree and of the moved tree: of the
texts that they take out of it, and of code that they splice into a stretch, given that it holds of
the code of the markup there. -/
structure Emitters.RelateSource (R : (α : Type) → Emit α → Emit α → Prop) (k : Nat) (x : Layout) :
    Prop extends Emit.Relation R where
  source : ∀ y ∈ x.nodes, R String (sourceText y.span) (sourceText (y.span.shift k))
  token : ∀ y ∈ x.nodes, y.kind ≠ .plain →
    R String (tokenText y.span) (tokenText (y.span.shift k))
  splice : ∀ y ∈ x.nodes, ∀ stretch : Stretch, stretch.Of y →
    (∀ m ∈ stretch.markups, R String (emitMarkup m) (emitMarkup (m.shift k))) →
      R String (emitters.splice stretch) (emitters.splice (stretch.shift k))

/-- A relation holds of what emitters do with the source of a tree and of the moved tree, and of the
code that they make of whatever is in the two. -/
structure Emitters.Relate (R : (α : Type) → Emit α → Emit α → Prop) (k : Nat) (x : Layout) : Prop
    extends RelateSource R k x where
  expr : ∀ (c : Context) (e : Expr), e.layout ∈ x.inner →
    R String (emitExpr c e) (emitExpr c (e.shift k))
  markup : ∀ m : Markup, m.layout ∈ x.inner → R String (emitMarkup m) (emitMarkup (m.shift k))
  block : ∀ e : Element, e.layout ∈ x.inner → R String (emitBlock e) (emitBlock (e.shift k))

/-- What holds of all parts holds of the first one, and of the two lists that the others make. -/
theorem forall_mem_cons_append {α : Type} {p : α → Prop} {first : α} {left right : List α}
    (h : ∀ y ∈ first :: (left ++ right), p y) :
    p first ∧ (∀ y ∈ left, p y) ∧ ∀ y ∈ right, p y := by
  simpa only [List.forall_mem_cons, List.forall_mem_append] using h

/-- Whether an array ends in a hole does not depend on where it stands. -/
theorem Emitters.endsInHole_shift (k : Nat) (items : List Item) :
    endsInHole (shiftItems k items) = endsInHole items := by
  induction items with
  | nil => rfl
  | cons item items ih =>
    cases items with
    | nil => cases item <;> rfl
    | cons next items => cases item <;> exact ih

/-- The chunks of a skeleton are the same wherever the element stands. -/
theorem Emitters.chunks_shift (k : Nat) (pieces : List Piece) (values : List (Option String)) :
    chunks ((pieces.map (Piece.shift k)).zip values) = chunks (pieces.zip values) := by
  induction pieces generalizing values with
  | nil => rfl
  | cons piece pieces ih =>
    cases values with
    | nil => rfl
    | cons value values =>
      rw [List.map_cons, List.zip_cons_cons, List.zip_cons_cons]
      cases value with
      | none =>
        cases piece with
        | html text => exact congrArg (prependChunk text) (ih values)
        | slot part => exact ih values
      | some value => rw [chunks, chunks, ih, piece.templateHtml_shift]

namespace Emitters.Relate

variable {R : (α : Type) → Emit α → Emit α → Prop} {k : Nat} {x : Layout} (h : Relate R k x)

include h

/-! ## Stretches and texts

What an emitter makes of a part of the tree is related to what it makes of the moved part. -/

/-- Code is spliced into a stretch in the tree as into the moved one. -/
theorem splice_inner {y : Layout} (hy : y ∈ x.inner) {stretch : Stretch} (hof : stretch.Of y) :
    R _ (emitters.splice stretch) (emitters.splice (stretch.shift k)) := by
  refine h.splice y (mem_nodes_of_mem_inner hy) stretch hof fun m hm => h.markup m ?_
  exact mem_inner_trans (mem_of_mem_outermost (hof.layout_mem_outermost hm)).1 hy

/-- Code is spliced into a stretch of the tree itself as into the moved one, if the tree is no
markup. -/
theorem splice_self (hx : x.isMarkup = false) {stretch : Stretch} (hof : stretch.Of x) :
    R _ (emitters.splice stretch) (emitters.splice (stretch.shift k)) := by
  refine h.splice x x.mem_nodes_self stretch hof fun m hm => h.markup m ?_
  exact mem_inner_of_mem_outermost hx (hof.layout_mem_outermost hm)

/-- The text of a type is related. -/
theorem type {span : Span} (hspan : Layout.mk .plain span [] ∈ x.inner) :
    R _ (sourceText span) (sourceText (span.shift k)) :=
  h.source (.mk .plain span []) (mem_nodes_of_mem_inner hspan)

/-- The text of type arguments is related. -/
theorem typeArguments {types : Option Span} (htypes : ∀ y ∈ typeLayouts types, y ∈ x.inner) :
    R _ (Emitters.typeArguments types) (Emitters.typeArguments (types.map (Span.shift k))) := by
  cases types with
  | none => exact h.pure _
  | some span => exact h.type (htypes _ (.head _))

/-- The code for what a type says about an expression is related. -/
theorem typed {mark : TypeMark} (hmark : ∀ y ∈ mark.layouts, y ∈ x.inner) (text : String) :
    R _ (Emitters.typed mark text) (Emitters.typed (mark.shift k) text) := by
  cases mark with
  | nonNull => exact h.pure _
  | asType | satisfies | assertion | instantiation => exact h.map (h.type (hmark _ (.head _)))

/-! ## Expressions -/

/-- The code of an operand is related. -/
theorem operand (c : Context) {e : Expr} (he : e.layout ∈ x.inner) :
    R _ (emitters.operand c e) (emitters.operand c (e.shift k)) :=
  h.expr c.operand e he

/-- The code of operands is related. -/
theorem operands (c : Context) {es : List Expr} (hes : ∀ y ∈ exprsLayouts es, y ∈ x.inner) :
    R _ (es.mapM (emitters.operand c)) ((shiftExprs k es).mapM (emitters.operand c)) := by
  rw [shiftExprs_eq_map]
  exact h.mapM fun e he => h.operand c (hes _ (layout_mem_exprsLayouts he))

/-- The code of array elements is related. -/
theorem items (c : Context) {items : List Item} (hitems : ∀ y ∈ itemsLayouts items, y ∈ x.inner) :
    R _ (emitters.items c items) (emitters.items c (shiftItems k items)) := by
  unfold Emitters.items
  rw [shiftItems_eq_map]
  refine h.mapM fun item hitem => ?_
  have hitem : ∀ y ∈ item.layouts, y ∈ x.inner := fun y hy => hitems y (mem_itemsLayouts hitem hy)
  cases item with
  | hole => exact h.pure _
  | value e => exact h.operand c (hitem _ (.head _))
  | spread e => exact h.map (h.operand c (hitem _ (.head _)))

/-- The code of the key of a property is related. -/
theorem propertyKey (c : Context) {key : Expr} {isComputed : Bool}
    (hnode : Layout.mk (if isComputed || key.isName then .plain else .token) key.span [key.layout] ∈
      x.inner) :
    R _ (emitters.propertyKey c key isComputed)
      (emitters.propertyKey c (key.shift k) isComputed) := by
  cases isComputed with
  | true =>
    have hkey : key.layout ∈ x.inner :=
      mem_inner_trans (mem_nodes_of_mem_inner (mem_inner_of_mem_parts (.head _))) hnode
    exact h.map (h.operand c hkey)
  | false =>
    have htoken : key.isName = false →
        R _ (tokenText key.span) (tokenText (key.shift k).span) := by
      intro hname
      rw [hname] at hnode
      rw [key.span_shift]
      exact h.token _ (mem_nodes_of_mem_inner hnode) (fun hkind => nomatch hkind)
    cases key with
    | ident span name => exact h.pure _
    -- A key that is neither computed nor a name is a token.
    | _ => exact htoken rfl

/-- The code of a property is related. -/
theorem property (c : Context) {property : Property}
    (hproperty : ∀ y ∈ property.layouts, y ∈ x.inner) :
    R _ (emitters.property c property) (emitters.property c (property.shift k)) := by
  cases property with
  | spread e =>
    exact h.map (h.operand c (hproperty _ (.head _)))
  | field key isComputed value =>
    have hkey := h.propertyKey c (hproperty _ (.head _))
    have hvalue := h.operand c (hproperty _ mem_second)
    exact h.bind hkey fun _ => h.map hvalue
  | shorthand value => exact h.operand c (hproperty _ (.head _))
  | shorthandDefault name value =>
    have hname := h.operand c (hproperty _ (.head _))
    have hvalue := h.operand c (hproperty _ mem_second)
    exact h.bind hname fun _ => h.map hvalue
  | method span key function =>
    exact h.splice_inner (hproperty _ (.head _)) (.method span key function)

/-- The code of a template literal is related. -/
theorem template (c : Context) (quasis : List Quasi) {values : List Expr}
    (hvalues : ∀ y ∈ exprsLayouts values, y ∈ x.inner) :
    R _ (emitters.template c quasis values) (emitters.template c quasis (shiftExprs k values)) :=
  h.map (h.operands c hvalues)

/-- The code of a call is related. -/
theorem call (c : Context) {callee : Expr} {types : Option Span} {arguments : List Item}
    (isOptional : Bool) (hcallee : callee.layout ∈ x.inner)
    (htypes : ∀ y ∈ typeLayouts types, y ∈ x.inner)
    (harguments : ∀ y ∈ itemsLayouts arguments, y ∈ x.inner) :
    R _ (emitters.call c callee types arguments isOptional)
      (emitters.call c (callee.shift k) (types.map (Span.shift k))
        (shiftItems k arguments) isOptional) := by
  have hitems := h.items c harguments
  have hempty : (shiftItems k arguments).isEmpty = arguments.isEmpty := by
    rw [shiftItems_eq_map, List.isEmpty_map]
  unfold Emitters.call
  rw [callee.isAccessor_shift, hempty]
  split
  · exact h.expr .plain callee hcallee
  · refine h.bind (h.operand c hcallee) fun _ => h.bind (h.typeArguments htypes) fun _ => ?_
    exact h.map hitems

omit h in
/-- The code of a function is related. -/
theorem function {span paramSpan : Span} {params : List Expr} {body : Body}
    (h : Relate R k
      (.mk .function span (.mk .plain paramSpan (exprsLayouts params) :: body.layouts))) :
    R _ (emitters.function span params body)
      (emitters.function (span.shift k) (shiftExprs k params) (body.shift k)) := by
  cases body with
  | missing => exact h.token _ (mem_nodes_self _) (fun hkind => nomatch hkind)
  | expr value =>
    have hhead := h.splice_self rfl (.head span paramSpan params (.expr value) _ rfl)
    have hvalue := h.expr .callback value (mem_inner_of_mem_parts mem_second)
    rw [Body.shift, Emitters.function, Emitters.function, value.span_shift]
    exact h.bind hhead fun _ => h.map hvalue
  | block bodySpan statements =>
    have hhead := h.splice_self rfl (.head span paramSpan params (.block bodySpan statements) _ rfl)
    have hbody := h.splice_inner (mem_inner_of_mem_parts mem_second) (.body bodySpan statements)
    exact h.bind hhead fun _ => h.map hbody

omit h in
/-- The code of a literal is related. -/
theorem literal {span : Span} (value : Literal) (h : Relate R k (.mk .token span [])) :
    R _ (Emitters.literal span value) (Emitters.literal (span.shift k) value) := by
  have htoken := h.token _ (mem_nodes_self _) (fun hkind => nomatch hkind)
  cases value with
  | null | boolean => exact h.pure _
  | _ => exact htoken

omit h in
/-- The code of an expression is related, unless it is markup. -/
theorem exprText (c : Context) (e : Expr) (h : Relate R k e.layout)
    (hmarkup : ∀ m, e = .markup m → R _ (emitMarkup m) (emitMarkup (m.shift k))) :
    R _ (emitters.exprText c e) (emitters.exprText c (e.shift k)) := by
  have hpart : ∀ y ∈ e.layout.parts, y ∈ e.layout.inner := fun y hy => mem_inner_of_mem_parts hy
  -- Parts that are copied from the source are spliced, and the others are emitted in turn.
  cases e with
  | literal span value => exact literal value h
  | ident | metaProperty | superRef | thisRef => exact h.pure _
  | template span quasis values => exact h.template c quasis hpart
  | array span items =>
    rw [Expr.shift, Emitters.exprText, Emitters.exprText, Emitters.endsInHole_shift]
    exact h.map (h.items c hpart)
  | object span properties =>
    rw [Expr.shift, Emitters.exprText, Emitters.exprText, shiftProperties_eq_map]
    refine h.map (h.mapM fun property hproperty => h.property c fun y hy => ?_)
    exact hpart y (mem_propertiesLayouts hproperty hy)
  | arrow | function => exact function h
  | classExpr span parts => exact h.splice_self rfl (.classText span parts)
  | assign span op target value =>
    have htarget := h.splice_inner (hpart _ (.head _)) (.target target)
    have hvalue := h.operand c (hpart _ mem_second)
    exact h.bind htarget fun _ => h.map hvalue
  | update span op isBefore target =>
    have htarget := h.splice_inner (hpart _ (.head _)) (.target target)
    exact h.map htarget
  | unary | hasPrivate | await | member => exact h.map (h.operand c (hpart _ (.head _)))
  | binary | index =>
    exact h.bind (h.operand c (hpart _ (.head _))) fun _ => h.map (h.operand c (hpart _ mem_second))
  | conditional span test consequent alternate =>
    have htest := h.operand c (hpart _ (.head _))
    have hconsequent := h.operand c (hpart _ mem_second)
    have halternate := h.operand c (hpart _ (List.mem_cons_of_mem _ mem_second))
    exact h.bind htest fun _ => h.bind hconsequent fun _ => h.map halternate
  | sequence span parts => exact h.map (h.operands c hpart)
  | yield span isDelegate operand =>
    cases operand with
    | none => exact h.pure _
    | some operand => exact h.map (h.operand c (hpart _ (.head _)))
  | call span callee types arguments isOptional =>
    obtain ⟨hcallee, htypes, harguments⟩ := forall_mem_cons_append hpart
    exact h.call c isOptional hcallee htypes harguments
  | construct span callee types arguments =>
    obtain ⟨hcallee, htypes, harguments⟩ := forall_mem_cons_append hpart
    refine h.bind (h.operand c hcallee) fun _ => h.bind (h.typeArguments htypes) fun _ => ?_
    exact h.map (h.items c harguments)
  | importCall span hasPhase source options =>
    cases hasPhase with
    | true => exact h.splice_self rfl (.importCall span source options)
    | false =>
      refine h.bind (h.operand c (hpart _ (.head _))) fun _ => ?_
      cases options with
      | none => exact h.pure _
      | some options =>
        have hoptions := h.operand c (hpart _ mem_second)
        exact h.map hoptions
  | tagged span tag types quasis values =>
    obtain ⟨htag, htypes, hvalues⟩ := forall_mem_cons_append hpart
    refine h.bind (h.operand c htag) fun _ => h.bind (h.typeArguments htypes) fun _ => ?_
    exact h.map (h.template c quasis hvalues)
  | chain span inner => exact h.expr c inner (hpart _ (.head _))
  | paren span inner =>
    exact h.map (h.expr c inner (hpart _ (.head _)))
  | typed span mark inner =>
    have hinner := h.expr c inner (hpart _ (List.mem_append_right _ (.head _)))
    exact h.bind hinner fun text => h.typed (fun y hy => hpart y (List.mem_append_left _ hy)) text
  | markup m => exact hmarkup m rfl

/-! ## Components and fragments -/

/-- The code of children is related. -/
theorem childValues {children : List Child}
    (hchildren : ∀ y ∈ childrenLayouts children, y ∈ x.inner) :
    R _ (emitters.childValues children) (emitters.childValues (children.map (Child.shift k))) := by
  unfold Emitters.childValues
  refine h.map (h.mapM fun child hchild => ?_)
  have hchild : ∀ y ∈ child.layouts, y ∈ x.inner := fun y hy =>
    hchildren y (mem_childrenLayouts hchild hy)
  cases child with
  | text | empty => exact h.pure _
  | markup m => exact h.map (h.markup m (hchild _ (.head _)))
  | expr e => exact h.map (h.expr .reactive e (hchild _ (.head _)))
  | spread e => exact h.map (h.expr .plain e (hchild _ (.head _)))

/-- The code of a property of a component is related. -/
theorem propertyValue (component name : String) {value : AttributeValue}
    (hvalue : ∀ y ∈ value.layouts, y ∈ x.inner) :
    R _ (emitters.propertyValue component name value)
      (emitters.propertyValue component name (value.shift k)) := by
  cases value with
  | bare | text | empty => exact h.pure _
  | markup m => exact h.markup m (hvalue _ (.head _))
  | expr e =>
    have he : ∀ c, R _ (emitExpr c e) (emitExpr c (e.shift k)) := fun c =>
      h.expr c e (hvalue _ (.head _))
    refine h.options fun env env' henv => ?_
    dsimp only
    rw [henv]
    split
    · unfold Emitters.condition
      rw [e.isDeferred_shift]
      split
      · exact he .plain
      · exact h.map (he .callback)
    · split
      · exact he .event
      · exact he .reactive

/-- What an attribute adds to a component is related. -/
theorem addition? (component : String) {a : Attribute} (ha : ∀ y ∈ a.layouts, y ∈ x.inner) :
    R _ (emitters.addition? component a) (emitters.addition? component (a.shift k)) := by
  cases a with
  | spread e => exact h.map (h.expr .plain e (ha _ (.head _)))
  | named name value =>
    rw [Attribute.shift, Emitters.addition?, Emitters.addition?, isIgnored_shift]
    split
    · exact h.pure _
    · exact h.map (h.propertyValue component name ha)

/-- The code of a component is related, if all that is in it is in the tree. -/
theorem component {e : Element} (he : ∀ y ∈ e.layout.inner, y ∈ x.inner) :
    R _ (emitters.component e) (emitters.component (e.shift k)) := by
  have hattributes : ∀ a ∈ e.attributes, R _ (emitters.addition? e.tag.text a)
      (emitters.addition? e.tag.text (a.shift k)) :=
    fun a ha => h.addition? e.tag.text fun y hy => he y (Element.mem_inner_of_attribute ha hy)
  have hchildren : R _ (emitters.childrenAddition? e.children)
      (emitters.childrenAddition? (e.children.map (Child.shift k))) := by
    have hspread : (e.children.map (Child.shift k)).any Emitters.isSpreadChild =
        e.children.any Emitters.isSpreadChild := by
      rw [List.any_map]
      exact congrArg e.children.any (funext fun child => by cases child <;> rfl)
    have hvalues := h.childValues fun y hy => he y (mem_inner_of_mem_parts (by
      rw [e.parts_layout]
      exact List.mem_append_right _ hy))
    unfold Emitters.childrenAddition?
    rw [hspread]
    exact h.bind hvalues fun values => by split <;> exact h.pure _
  unfold Emitters.component
  rw [e.tag_shift, e.attributes_shift, e.children_shift]
  exact h.bind (h.mapM hattributes) fun _ => h.map hchildren

/-! ## Blocks -/

/-- The value of a part is related. -/
theorem partValue (c : Context) {value : PartValue} (hvalue : value.layout ∈ x.inner) :
    R _ (emitters.partValue c value) (emitters.partValue c (value.shift k)) := by
  cases value with
  | expr e | spread e => exact h.expr c e hvalue
  | markup m => exact h.markup m hvalue

variable {part : Part} {e : Element}

/-- The code that binds an attribute is related. -/
theorem attributeBinding (target : String) (hpart : part.value.layout ∈ x.inner) :
    R _ (emitters.attributeBinding target part)
      (emitters.attributeBinding target (part.shift k)) := by
  obtain ⟨path, tag, value⟩ := part
  have hvalue := fun c => h.partValue c hpart
  cases value with
  | spread e =>
    rcases tag with (_ | name) | marker <;> exact h.map (h.expr .plain e hpart)
  | _ =>
    rcases tag with (_ | name) | marker
    · exact h.map (hvalue .plain)
    · unfold Emitters.attributeBinding Emitters.setting
      dsimp only [Part.point, BindingPoint.name, Option.getD, Part.shift, PartValue.shift]
      split
      · exact h.map (hvalue .event)
      · exact h.map (hvalue .plain)
    · exact h.map (hvalue .plain)

/-- The code that inserts a value is related. -/
theorem insertion (marker : String) {value : PartValue} (hvalue : value.layout ∈ x.inner) :
    R _ (emitters.insertion marker value) (emitters.insertion marker (value.shift k)) := by
  have hchange : Emitters.mayChange (value.shift k) = Emitters.mayChange value := by
    cases value with
    | expr e | spread e => exact e.mayChange_shift _
    | markup m => rfl
  unfold Emitters.insertion
  rw [hchange]
  exact h.map (h.partValue .reactive hvalue)

/-- The key of an item is related. -/
theorem itemKey? (he : ∀ y ∈ e.layout.inner, y ∈ x.inner) :
    R _ (emitters.itemKey? e) (emitters.itemKey? (e.shift k)) := by
  unfold Emitters.itemKey?
  rw [e.key?_shift]
  cases hkey : e.key? with
  | none => exact h.pure _
  | some value =>
    cases value with
    | expr key =>
      exact h.map (h.expr .callback key (he _ (Element.layout_key hkey)))
    | _ => exact h.pure _

/-- The HTML of a static element is related. -/
theorem staticTemplate (hstatic : e.isStatic = true) :
    R _ (MarkupCompiler.staticTemplate e.staticHtml?)
      (MarkupCompiler.staticTemplate (e.shift k).staticHtml?) := by
  rw [e.staticHtml?_shift, Element.staticHtml?, if_pos hstatic]
  exact h.intern _

/-- The code that binds a list is related. -/
theorem listBinding (marker : String) {list : ListShape} (harray : list.array.layout ∈ x.inner)
    (hcallback : list.callback.layout ∈ x.inner) :
    R _ (emitters.listBinding marker list) (emitters.listBinding marker (list.shift k)) := by
  unfold Emitters.listBinding
  refine h.bind (h.expr .reactive list.array harray) fun array => ?_
  dsimp only [ListShape.shift]
  rw [list.callback.itemShape?_shift]
  cases hitem : list.callback.itemShape? with
  | none => exact h.map (h.expr .callback list.callback hcallback)
  | some item =>
    -- The item is taken out of the callback, and the callback is in the tree.
    obtain ⟨hparams, helement⟩ := Expr.layout_itemShape hitem
    have hparams := mem_inner_trans (mem_nodes_of_mem_inner hparams) hcallback
    have helement := mem_inner_trans (mem_nodes_of_mem_inner helement) hcallback
    have hinner : ∀ y ∈ item.element.layout.inner, y ∈ x.inner := fun y hy =>
      mem_inner_trans (mem_nodes_of_mem_inner hy) helement
    have hsplice := h.splice_inner hparams (.params item.paramSpan item.params)
    have hkey := h.itemKey? hinner
    dsimp only [Option.map_some, ItemShape.shift]
    rw [item.element.isComponent_shift, item.element.isStatic_shift]
    unfold Emitters.itemParams
    rw [Stretch.shift, shiftExprs_eq_map] at hsplice
    refine h.bind (h.map hsplice) fun _ => ?_
    -- However the element is made, its key comes next, and then the statement is put together.
    split
    · refine h.bind (h.component hinner) fun _ => h.bind hkey fun key? => ?_
      cases key? <;> exact h.pure _
    · split
      · rename_i hstatic
        refine h.bind (h.staticTemplate hstatic) fun _ => h.bind (h.pure _) fun _ =>
          h.bind hkey fun key? => ?_
        cases key? <;> exact h.pure _
      · refine h.bind (h.block item.element helement) fun _ => h.bind (h.pure _) fun _ =>
          h.bind hkey fun key? => ?_
        cases key? <;> exact h.pure _

/-- The code that binds a child is related. -/
theorem childBinding (marker : String) (hpart : part.value.layout ∈ x.inner) :
    R _ (emitters.childBinding marker part) (emitters.childBinding marker (part.shift k)) := by
  obtain ⟨path, tag, value⟩ := part
  cases value with
  | expr e =>
    unfold Emitters.childBinding Emitters.contentBinding
    dsimp only [Part.shift, PartValue.shift]
    rw [e.listShape?_shift]
    cases hlist : e.listShape? with
    | none => exact h.insertion marker hpart
    | some list =>
      obtain ⟨harray, hcallback⟩ := Expr.layout_listShape hlist
      exact h.listBinding marker (mem_inner_trans (mem_nodes_of_mem_inner harray) hpart)
        (mem_inner_trans (mem_nodes_of_mem_inner hcallback) hpart)
  | spread | markup => exact h.insertion marker hpart

/-- The code that binds the parts of an element is related. -/
theorem bindings (template : String) {parts : List Part}
    (hparts : ∀ part ∈ parts, part.value.layout ∈ x.inner) :
    R _ (emitters.bindings template parts)
      (emitters.bindings template (parts.map (Part.shift k))) := by
  have hattributes : (parts.map (Part.shift k)).filter Part.isAttribute =
      (parts.filter Part.isAttribute).map (Part.shift k) := by
    rw [List.filter_map]
    rfl
  have hcontent : (parts.map (Part.shift k)).filter (!·.isAttribute) =
      (parts.filter (!·.isAttribute)).map (Part.shift k) := by
    rw [List.filter_map]
    rfl
  have hpaths : Emitters.targetPaths (parts.map (Part.shift k)) =
      Emitters.targetPaths parts := by
    unfold Emitters.targetPaths
    rw [hattributes, List.map_map]
    rfl
  rw [Emitters.bindings_eq, Emitters.bindings_eq, hpaths, hattributes, hcontent, List.zipIdx_map,
    List.map_map]
  refine h.bind (h.mapM fun part hpart => ?_) fun settings =>
    h.bind (h.mapM fun entry hentry => ?_) fun insertions => h.pure _
  · exact h.attributeBinding _ (hparts part (List.mem_filter.1 hpart).1)
  · exact h.childBinding _
      (hparts entry.1 (List.mem_filter.1 (List.fst_mem_of_mem_zipIdx hentry)).1)

/-- The block of an element is related, if all that is in it is in the tree. -/
theorem elementBlock (he : ∀ y ∈ e.layout.inner, y ∈ x.inner) :
    R _ (emitters.elementBlock e) (emitters.elementBlock (e.shift k)) := by
  have hparts : ∀ part ∈ (e.skeleton 0).parts, part.value.layout ∈ x.inner := by
    intro part hpart
    rw [e.skeleton_parts] at hpart
    exact he _ (e.layout_parts [] 0 part hpart)
  unfold Emitters.elementBlock
  dsimp only
  rw [e.templateHtml_shift, e.skeleton_parts_shift]
  exact h.bind (h.intern _) fun template => h.bindings template hparts

/-! ## Elements on the server -/

/-- The value of a slot is related. -/
theorem serverValue? (hpart : part.value.layout ∈ x.inner) :
    R _ (emitters.serverValue? (.slot part)) (emitters.serverValue? (.slot (part.shift k))) := by
  obtain ⟨path, name | marker, value⟩ := part
  · have hvalue := h.partValue .plain hpart
    cases value with
    | spread e => exact h.map (h.expr .plain e hpart)
    | _ =>
      dsimp only [Part.shift, PartValue.shift]
      rw [Emitters.serverValue?, Emitters.serverValue?]
      unfold Emitters.serverAttribute?
      dsimp only
      split
      · exact h.pure _
      · exact h.map hvalue
  · cases value with
    | expr e | spread e => exact h.map (h.map (h.expr .plain e hpart))
    | markup m => exact h.map (h.markup m hpart)

/-- The code of an element on the server is related, if all that is in it is in the tree. -/
theorem serverElement (he : ∀ y ∈ e.layout.inner, y ∈ x.inner) :
    R _ (emitters.serverElement e) (emitters.serverElement (e.shift k)) := by
  have hpieces : ∀ piece ∈ (e.skeleton 0).pieces, R _ (emitters.serverValue? piece)
      (emitters.serverValue? (piece.shift k)) := by
    intro piece hpiece
    rcases piece with text | part
    · exact h.pure _
    · have hpart := Element.mem_parts_of_slot hpiece
      rw [e.skeleton_parts] at hpart
      exact h.serverValue? (he _ (e.layout_parts [] 0 part hpart))
  unfold Emitters.serverElement
  dsimp only
  rw [e.skeleton_pieces_shift]
  refine h.bind (h.mapM hpieces) fun values => ?_
  rw [Emitters.chunks_shift]
  exact h.map (h.intern _)

omit h in
/-- The code of markup is related. -/
theorem markupText (m : Markup) (h : Relate R k m.layout) :
    R _ (emitters.markupText m) (emitters.markupText (m.shift k)) := by
  cases m with
  | element e =>
    have he : ∀ y ∈ e.layout.inner, y ∈ (Markup.element e).layout.inner := fun y hy => hy
    rw [Markup.shift, Emitters.markupText, Emitters.markupText]
    unfold Emitters.element
    rw [e.isComponent_shift, e.isStatic_shift]
    split
    · exact h.component he
    · refine h.options fun env env' henv => ?_
      rw [henv]
      split
      · exact h.serverElement he
      · split
        · rename_i hstatic
          exact h.map (h.staticTemplate hstatic)
        · exact h.map (h.elementBlock he)
  | fragment span children =>
    rw [Markup.shift, shiftChildren_eq_map]
    exact h.map (h.childValues fun y hy => mem_inner_of_mem_parts hy)

end Emitters.Relate

/-! ## The code of a tree -/

/-- A relation holds of the code of whatever has a layout and of the code of the moved tree. -/
structure Emitters.RelateCode (R : (α : Type) → Emit α → Emit α → Prop) (k : Nat) (y : Layout) :
    Prop where
  expr : ∀ (c : Context) (e : Expr), e.layout = y →
    R String (emitExpr c e) (emitExpr c (e.shift k))
  markup : ∀ m : Markup, m.layout = y → R String (emitMarkup m) (emitMarkup (m.shift k))
  block : ∀ e : Element, e.layout = y → R String (emitBlock e) (emitBlock (e.shift k))

namespace Emitters.RelateSource

variable {R : (α : Type) → Emit α → Emit α → Prop} {k : Nat} {x y : Layout}

/-- A relation that holds of what emitters do with the source of a tree does so for its parts. -/
theorem of_mem (h : RelateSource R k x) (hy : y ∈ x.nodes) : RelateSource R k y where
  toRelation := h.toRelation
  source z hz := h.source z (mem_nodes_trans hz hy)
  token z hz := h.token z (mem_nodes_trans hz hy)
  splice z hz := h.splice z (mem_nodes_trans hz hy)

/-- A relation that holds of what emitters do with the source of a tree holds of the code of the
tree and of all that is in it. -/
theorem emit (h : RelateSource R k x) (hy : y ∈ x.nodes) : RelateCode R k y := by
  induction x generalizing y with
  | mk kind span parts ih =>
    -- By induction the relation holds of all that lies inside.
    have hinner : ∀ z ∈ (Layout.mk kind span parts).inner, RelateCode R k z := by
      intro z hz
      obtain ⟨part, hpart, hz⟩ := mem_inner_iff.1 hz
      exact ih part hpart (h.of_mem (mem_nodes_of_mem_inner (mem_inner_of_mem_parts hpart))) hz
    rw [nodes_eq, List.mem_cons] at hy
    rcases hy with rfl | hy
    · have hrelate : Relate R k (Layout.mk kind span parts) :=
        { h with
          expr := fun c e he => (hinner _ he).expr c e rfl
          markup := fun m hm => (hinner _ hm).markup m rfl
          block := fun e he => (hinner _ he).block e rfl }
      have hmarkup : ∀ m : Markup, m.layout = Layout.mk kind span parts →
          R String (emitMarkup m) (emitMarkup (m.shift k)) := by
        intro m hm
        rw [emitMarkup_eq, emitMarkup_eq]
        exact Relate.markupText m (hm ▸ hrelate)
      refine ⟨fun c e he => ?_, hmarkup, fun e he => ?_⟩
      · -- An expression that is markup has the layout of the markup.
        rw [emitExpr_eq, emitExpr_eq]
        refine Relate.exprText c e (he ▸ hrelate) fun m hm => hmarkup m ?_
        rw [← he, hm]
        rfl
      · rw [emitBlock_eq, emitBlock_eq]
        exact hrelate.elementBlock fun z hz => by rw [he] at hz; exact hz
    · exact hinner y hy

end Emitters.RelateSource

/-! ## Properties of computations -/

/-- A property of computations that goes over to sequences, and holds of computations that do
nothing, look at the options, or name a template. -/
structure Emit.Invariant (I : (α : Type) → Emit α → Prop) : Prop where
  pure : ∀ {α : Type} (a : α), I α (Pure.pure a)
  bind : ∀ {α β : Type} {p : Emit α} {f : α → Emit β}, I α p → (∀ a, I β (f a)) → I β (p >>= f)
  read : I Env read
  intern : ∀ text : String, I String (internTemplate text)

variable {I : (α : Type) → Emit α → Prop}

/-- A property is a relation that asks nothing of the second computation. -/
theorem Emit.Invariant.relation (h : Emit.Invariant I) : Emit.Relation fun α p _ => I α p where
  pure a := h.pure a
  bind hp hf := h.bind hp hf
  options hf := h.bind h.read fun env => hf env env rfl
  intern text := h.intern text

/-- An invariant goes over to lists. -/
theorem Emit.Invariant.mapM (h : Emit.Invariant I) {α β : Type} {f : α → Emit β} {xs : List α}
    (hf : ∀ x ∈ xs, I β (f x)) : I (List β) (xs.mapM f) :=
  @Emit.Relation.mapM _ h.relation α α β f f id xs hf

/-- An invariant holds of what emitters do with the source of a tree: of the texts that they take
out of it, and of code that they splice into a stretch, given that it holds of the code of the
markup there. -/
structure Emitters.KeepSource (I : (α : Type) → Emit α → Prop) (x : Layout) : Prop
    extends Emit.Invariant I where
  source : ∀ y ∈ x.nodes, I String (sourceText y.span)
  token : ∀ y ∈ x.nodes, y.kind ≠ .plain → I String (tokenText y.span)
  splice : ∀ y ∈ x.nodes, ∀ stretch : Stretch, stretch.Of y →
    (∀ m ∈ stretch.markups, I String (emitMarkup m)) → I String (emitters.splice stretch)

/-- An invariant that holds of what emitters do with the source of a tree holds of the code of the
tree and of all that is in it. -/
theorem Emitters.KeepSource.emit {x y : Layout} (h : KeepSource I x) (hy : y ∈ x.nodes) :
    RelateCode (fun α p _ => I α p) 0 y :=
  RelateSource.emit ⟨h.relation, h.source, h.token, h.splice⟩ hy

end MarkupCompiler
