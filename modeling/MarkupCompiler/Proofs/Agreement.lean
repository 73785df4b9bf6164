import MarkupCompiler.Emit.Markup
import MarkupCompiler.Proofs.Depth
import MarkupCompiler.Proofs.Emission

/-!
# Emitters that agree

The emitter of a construct is given emitters for its constituents. If two of those agree on all
trees of less than a depth, they make the same of a construct of that depth (`Agree.exprText`,
`Agree.markupText`, `Agree.elementBlock`). It follows that any depth that is great enough gives the
same code, so that the emitters of the whole satisfy the equations of their recursion without regard
to depth (`emitExpr_eq`, `emitMarkup_eq`, `emitBlock_eq`).

Agreement is asked for in any two contexts of which both or neither hand over accessors. So the code
of an expression depends on no more of its context than that.
-/

namespace MarkupCompiler

open Syntax

/-- Contexts are alike if accessors are handed over in both or in neither. -/
def Context.Alike (c c' : Context) : Prop := c = .reactive ↔ c' = .reactive

/-- A context is like itself. -/
theorem Context.Alike.refl (c : Context) : c.Alike c := Iff.rfl

/-- Accessors are not handed over in the context of an operand. -/
theorem Context.operand_ne_reactive (c : Context) : c.operand ≠ .reactive := by
  cases c <;> decide

/-- The contexts of operands are alike. -/
theorem Context.alike_operand (c c' : Context) : c.operand.Alike c'.operand :=
  iff_of_false c.operand_ne_reactive c'.operand_ne_reactive

/-- Emitters agree on trees of less than a depth. -/
structure Emitters.Agree (depth : Nat) (g g' : Emitters) : Prop where
  expr : ∀ {c c' : Context}, c.Alike c' → ∀ e : Expr, e.depth < depth → g.expr c e = g'.expr c' e
  markup : ∀ m : Markup, m.depth < depth → g.markup m = g'.markup m
  block : ∀ e : Element, e.depth < depth → g.block e = g'.block e

namespace Emitters.Agree

variable {depth : Nat} {g g' : Emitters} (h : Agree depth g g') (c c' : Context)

include h

/-! ## Expressions -/

/-- Emitters that agree make the same of an operand. -/
theorem operand (e : Expr) (he : e.depth < depth) : g.operand c e = g'.operand c' e :=
  h.expr (Context.alike_operand c c') e he

/-- Emitters that agree make the same of text with markup in it. -/
theorem splice (stretch : Stretch) (hm : AllBelow depth stretch.markups) :
    g.splice stretch = g'.splice stretch := by
  unfold Emitters.splice
  rw [Emit.mapM_congr fun m hmem => by rw [h.markup m (hm m hmem)]]

/-- Emitters that agree make the same of operands. -/
theorem operands {es : List Expr} (hes : exprsDepth es < depth) :
    es.mapM (g.operand c) = es.mapM (g'.operand c') :=
  Emit.mapM_congr fun e he =>
    h.operand c c' e (Nat.lt_of_le_of_lt (depth_le_exprsDepth he) hes)

/-- Emitters that agree make the same of array elements. -/
theorem items {items : List Item} (hitems : itemsDepth items < depth) :
    g.items c items = g'.items c' items := by
  unfold Emitters.items
  refine Emit.mapM_congr fun item hitem => ?_
  have hlt := Nat.lt_of_le_of_lt (depth_le_itemsDepth hitem) hitems
  cases item with
  | hole => rfl
  | value e => exact h.operand c c' e hlt
  | spread e => simp only [h.operand c c' e hlt]

/-- Emitters that agree make the same of the key of a property. -/
theorem propertyKey (key : Expr) (isComputed : Bool) (hkey : key.depth < depth) :
    g.propertyKey c key isComputed = g'.propertyKey c' key isComputed := by
  unfold Emitters.propertyKey
  rw [h.operand c c' key hkey]

/-- Emitters that agree make the same of a property. -/
theorem property (property : Property) (hproperty : property.depth < depth) :
    g.property c property = g'.property c' property := by
  cases property with
  | spread e =>
    rw [Property.depth] at hproperty
    rw [Emitters.property, Emitters.property, h.operand c c' e hproperty]
  | field key isComputed value =>
    rw [Property.depth] at hproperty
    rw [Emitters.property, Emitters.property, h.propertyKey c c' key isComputed (by omega),
      h.operand c c' value (by omega)]
  | shorthand value => exact h.operand c c' value hproperty
  | shorthandDefault name value =>
    rw [Property.depth] at hproperty
    rw [Emitters.property, Emitters.property, h.operand c c' name (by omega),
      h.operand c c' value (by omega)]
  | method span key function =>
    exact h.splice (.method span key function)
      ((Property.method span key function).allBelow_markups.mono (Nat.le_of_lt hproperty))

/-- Emitters that agree make the same of a template literal. -/
theorem template (quasis : List Quasi) {values : List Expr} (hvalues : exprsDepth values < depth) :
    g.template c quasis values = g'.template c' quasis values := by
  unfold Emitters.template
  rw [h.operands c c' hvalues]

/-- Emitters that agree make the same of a function. -/
theorem function (span : Span) {params : List Expr} (body : Body)
    (hparams : exprsDepth params < depth) (hbody : body.depth < depth) :
    g.function span params body = g'.function span params body := by
  have hhead : AllBelow depth (exprsMarkups params) :=
    (allBelow_exprsMarkups params).mono (Nat.le_of_lt hparams)
  cases body with
  | missing => rfl
  | expr value =>
    rw [Emitters.function, Emitters.function, h.splice (.head span params value.span.start) hhead,
      h.expr (Context.Alike.refl _) value hbody]
  | block bodySpan statements =>
    have hblock : AllBelow depth (stmtsMarkups statements) :=
      (allBelow_stmtsMarkups statements).mono (Nat.le_of_lt hbody)
    rw [Emitters.function, Emitters.function, h.splice (.head span params bodySpan.start) hhead,
      h.splice (.body bodySpan statements) hblock]

variable {c c'}

/-- Emitters that agree make the same of a call. -/
theorem call (hc : c.Alike c') (callee : Expr) (types : Option Span) {arguments : List Item}
    (isOptional : Bool) (hcallee : callee.depth < depth)
    (harguments : itemsDepth arguments < depth) :
    g.call c callee types arguments isOptional = g'.call c' callee types arguments isOptional := by
  have hreactive : (c == .reactive) = (c' == .reactive) := by
    rw [Bool.eq_iff_iff, beq_iff_eq, beq_iff_eq]
    exact hc
  unfold Emitters.call
  rw [hreactive, h.expr (Context.Alike.refl _) callee hcallee, h.operand c c' callee hcallee,
    h.items c c' harguments]

/-- Emitters that agree make the same of an expression, in contexts that are alike. -/
theorem exprText (hc : c.Alike c') (e : Expr) (he : e.depth ≤ depth) :
    g.exprText c e = g'.exprText c' e := by
  cases e with
  | literal | ident | metaProperty | superRef | thisRef => rfl
  | template span quasis values => exact h.template c c' quasis he
  | array span items =>
    rw [Expr.depth] at he
    rw [Emitters.exprText, Emitters.exprText, h.items c c' he]
  | object span properties =>
    rw [Expr.depth] at he
    rw [Emitters.exprText, Emitters.exprText, Emit.mapM_congr fun property hproperty =>
      h.property c c' property (Nat.lt_of_le_of_lt (depth_le_propertiesDepth hproperty) he)]
  | arrow span _ _ _ body | function span _ _ _ body =>
    rw [Expr.depth] at he
    exact h.function span body (by omega) (by omega)
  | classExpr span parts =>
    rw [Expr.depth] at he
    exact h.splice (.classText span parts)
      ((allBelow_stmtsMarkups parts).mono (Nat.le_of_succ_le he))
  | assign span op target value =>
    rw [Expr.depth] at he
    rw [Emitters.exprText, Emitters.exprText,
      h.splice (.target target) (target.allBelow_markups.mono (by omega)),
      h.operand c c' value (by omega)]
  | update span op isBefore target =>
    rw [Expr.depth] at he
    rw [Emitters.exprText, Emitters.exprText,
      h.splice (.target target) (target.allBelow_markups.mono (by omega))]
  | unary _ _ e | hasPrivate _ _ e | await _ e | member _ e =>
    rw [Expr.depth] at he
    rw [Emitters.exprText, Emitters.exprText, h.operand c c' e he]
  | binary _ _ left right | index _ left right =>
    rw [Expr.depth] at he
    rw [Emitters.exprText, Emitters.exprText, h.operand c c' left (by omega),
      h.operand c c' right (by omega)]
  | conditional span test consequent alternate =>
    rw [Expr.depth] at he
    rw [Emitters.exprText, Emitters.exprText, h.operand c c' test (by omega),
      h.operand c c' consequent (by omega), h.operand c c' alternate (by omega)]
  | sequence span parts =>
    rw [Expr.depth] at he
    rw [Emitters.exprText, Emitters.exprText, h.operands c c' he]
  | yield span isDelegate operand =>
    cases operand with
    | none => rfl
    | some operand =>
      rw [Expr.depth, optionDepth] at he
      simp only [Emitters.exprText, h.operand c c' operand he]
  | call span callee types arguments isOptional =>
    rw [Expr.depth] at he
    exact h.call hc callee types isOptional (by omega) (by omega)
  | construct span callee types arguments =>
    rw [Expr.depth] at he
    rw [Emitters.exprText, Emitters.exprText, h.operand c c' callee (by omega),
      h.items c c' (by omega)]
  | importCall span hasPhase source options =>
    rw [Expr.depth] at he
    -- With a phase the call keeps its text; without, source and options are operands.
    have hmarkups := source.allBelow_markups.append (allBelow_optionMarkups options)
    rw [Emitters.exprText, Emitters.exprText,
      h.splice (.importCall span source options) (hmarkups.mono (Nat.le_of_succ_le he)),
      h.operand c c' source (by omega)]
    cases options with
    | none => rfl
    | some options =>
      rw [optionDepth] at he
      simp only [h.operand c c' options (by omega)]
  | tagged span tag types quasis values =>
    rw [Expr.depth] at he
    rw [Emitters.exprText, Emitters.exprText, h.operand c c' tag (by omega),
      h.template c c' quasis (by omega)]
  | chain span inner => exact h.expr hc inner he
  | paren _ inner | typed _ _ inner =>
    rw [Expr.depth] at he
    rw [Emitters.exprText, Emitters.exprText, h.expr hc inner he]
  | markup m => exact h.markup m he

/-! ## Components and fragments -/

/-- Emitters that agree make the same of an expression, in one context. -/
theorem sameContext (e : Expr) (he : e.depth < depth) : g.expr c e = g'.expr c e :=
  h.expr (Context.Alike.refl c) e he

/-- Emitters that agree make the same of a child. -/
theorem childValue? (child : Child) (hchild : child.depth < depth) :
    g.childValue? child = g'.childValue? child := by
  cases child with
  | text | empty => rfl
  | markup m =>
    rw [Child.depth] at hchild
    rw [Emitters.childValue?, Emitters.childValue?, h.markup m hchild]
  | expr e | spread e =>
    rw [Child.depth] at hchild
    rw [Emitters.childValue?, Emitters.childValue?, h.sameContext e hchild]

/-- Emitters that agree make the same of children. -/
theorem childValues {children : List Child} (hchildren : ∀ child ∈ children, child.depth < depth) :
    g.childValues children = g'.childValues children := by
  unfold Emitters.childValues
  rw [Emit.mapM_congr fun child hchild => h.childValue? child (hchildren child hchild)]

/-- Emitters that agree make the same of a condition. -/
theorem condition (e : Expr) (he : e.depth < depth) : g.condition e = g'.condition e := by
  unfold Emitters.condition
  rw [h.sameContext e he, h.sameContext e he]

/-- Emitters that agree make the same of a property of a component. -/
theorem propertyValue (component name : String) (value : AttributeValue)
    (hvalue : value.depth < depth) :
    g.propertyValue component name value = g'.propertyValue component name value := by
  cases value with
  | bare => rfl
  | text raw => rfl
  | expr e =>
    rw [AttributeValue.depth] at hvalue
    rw [Emitters.propertyValue, Emitters.propertyValue, h.condition e hvalue,
      h.sameContext e hvalue, h.sameContext e hvalue]
  | empty => rfl
  | markup m => exact h.markup m hvalue

/-- Emitters that agree make the same of an attribute of a component. -/
theorem addition? (component : String) (a : Attribute) (ha : a.depth < depth) :
    g.addition? component a = g'.addition? component a := by
  cases a with
  | spread e =>
    rw [Attribute.depth] at ha
    rw [Emitters.addition?, Emitters.addition?, h.sameContext e ha]
  | named name value =>
    rw [Attribute.depth] at ha
    rw [Emitters.addition?, Emitters.addition?, h.propertyValue component name value ha]

/-- Emitters that agree make the same of a component. -/
theorem component (e : Element) (he : e.depth ≤ depth) : g.component e = g'.component e := by
  have hattributes : ∀ a ∈ e.attributes,
      g.addition? e.tag.text a = g'.addition? e.tag.text a := fun a ha =>
    h.addition? e.tag.text a (Nat.lt_of_lt_of_le (e.depth_attribute ha) he)
  have hchildren : g.childValues e.children = g'.childValues e.children :=
    h.childValues fun child hchild => Nat.lt_of_lt_of_le (e.depth_child hchild) he
  unfold Emitters.component Emitters.childrenAddition?
  dsimp only
  rw [Emit.mapM_congr hattributes, hchildren]

/-- Emitters that agree make the same of a fragment. -/
theorem fragment {children : List Child} (hchildren : childrenDepth children < depth) :
    g.fragment children = g'.fragment children := by
  unfold Emitters.fragment
  rw [h.childValues fun child hchild =>
    Nat.lt_of_le_of_lt (depth_le_childrenDepth hchild) hchildren]

/-! ## Blocks -/

/-- Emitters that agree make the same of the value of a part. -/
theorem partValue (value : PartValue) (hvalue : value.depth < depth) :
    g.partValue c value = g'.partValue c value := by
  cases value with
  | expr e => exact h.sameContext e hvalue
  | spread e => exact h.sameContext e hvalue
  | markup m => exact h.markup m hvalue

/-- Emitters that agree bind an attribute in the same way. -/
theorem attributeBinding (target : String) (part : Part) (hpart : part.value.depth < depth) :
    g.attributeBinding target part = g'.attributeBinding target part := by
  obtain ⟨path, place, value⟩ := part
  have hpartValue : ∀ c, g.partValue c value = g'.partValue c value := fun c =>
    h.partValue value hpart
  unfold Emitters.attributeBinding Emitters.setting
  dsimp only [Part.point]
  split
  · rename_i e
    rw [h.sameContext e hpart]
  · rw [hpartValue, hpartValue]

/-- Emitters that agree insert a value in the same way. -/
theorem insertion (marker : String) (value : PartValue) (hvalue : value.depth < depth) :
    g.insertion marker value = g'.insertion marker value := by
  unfold Emitters.insertion
  rw [h.partValue value hvalue]

/-- Emitters that agree make the same of the key of an item. -/
theorem itemKey? (e : Element) (he : e.depth ≤ depth) : g.itemKey? e = g'.itemKey? e := by
  unfold Emitters.itemKey?
  split
  · rename_i key hkey
    rw [h.sameContext key (Nat.lt_of_lt_of_le (Element.depth_key hkey) he)]
  · rfl
  · rfl

/-- Emitters that agree bind a list in the same way. -/
theorem listBinding (marker : String) {list : ListShape} (harray : list.array.depth < depth)
    (hcallback : list.callback.depth < depth) :
    g.listBinding marker list = g'.listBinding marker list := by
  unfold Emitters.listBinding
  rw [h.sameContext list.array harray]
  split
  · rw [h.sameContext list.callback hcallback]
  · rename_i item hitem
    -- The item is taken out of the callback, so it is less deep than the list.
    obtain ⟨hparams, helement⟩ := Expr.depth_itemShape hitem
    have hmarkups : AllBelow depth (exprsMarkups item.params) :=
      (allBelow_exprsMarkups item.params).mono (by omega)
    unfold Emitters.itemParams
    rw [h.splice (.params item.paramSpan item.params) hmarkups, h.component item.element (by omega),
      h.block item.element (by omega), h.itemKey? item.element (by omega)]

/-- Emitters that agree bind a child in the same way. -/
theorem childBinding (marker : String) (part : Part) (hpart : part.value.depth < depth) :
    g.childBinding marker part = g'.childBinding marker part := by
  obtain ⟨path, place, value⟩ := part
  unfold Emitters.childBinding Emitters.contentBinding
  dsimp only
  split
  · rename_i e
    rw [PartValue.depth] at hpart
    split
    · rename_i list hlist
      obtain ⟨harray, hcallback⟩ := Expr.depth_listShape hlist
      exact h.listBinding marker (by omega) (by omega)
    · exact h.insertion marker _ hpart
  · exact h.insertion marker value hpart

/-- Emitters that agree bind parts in the same way. -/
theorem bindings (template : String) {parts : List Part}
    (hparts : ∀ part ∈ parts, part.value.depth < depth) :
    g.bindings template parts = g'.bindings template parts := by
  have hsettings : ∀ part ∈ parts.filter Part.isAttribute,
      g.attributeBinding (targetOf (targetPaths parts) part.path) part =
        g'.attributeBinding (targetOf (targetPaths parts) part.path) part := fun part hpart =>
    h.attributeBinding _ part (hparts part (List.mem_filter.1 hpart).1)
  have hinsertions : ∀ entry ∈ (parts.filter (!·.isAttribute)).zipIdx,
      g.childBinding (markerName entry.2) entry.1 =
        g'.childBinding (markerName entry.2) entry.1 := fun entry hentry =>
    h.childBinding _ entry.1
      (hparts entry.1 (List.mem_filter.1 (List.fst_mem_of_mem_zipIdx hentry)).1)
  rw [Emitters.bindings_eq, Emitters.bindings_eq, Emit.mapM_congr hsettings,
    Emit.mapM_congr hinsertions]

/-- Emitters that agree make the same block of an element. -/
theorem elementBlock (e : Element) (he : e.depth ≤ depth) :
    g.elementBlock e = g'.elementBlock e := by
  have hparts : ∀ part ∈ (e.skeleton 0).parts, part.value.depth < depth := by
    intro part hpart
    rw [e.skeleton_parts] at hpart
    exact Nat.lt_of_lt_of_le (e.depth_parts [] 0 part hpart) he
  unfold Emitters.elementBlock
  dsimp only
  rw [funext fun template => h.bindings template hparts]

/-! ## Elements on the server -/

/-- Emitters that agree make the same of the slot of an attribute. -/
theorem serverAttribute? (name : String) (value : PartValue) (hvalue : value.depth < depth) :
    g.serverAttribute? name value = g'.serverAttribute? name value := by
  unfold Emitters.serverAttribute?
  split
  · rename_i e
    rw [h.sameContext e hvalue]
  · rw [h.partValue value hvalue]

/-- Emitters that agree make the same of the slot of a child. -/
theorem serverChild (value : PartValue) (hvalue : value.depth < depth) :
    g.serverChild value = g'.serverChild value := by
  cases value with
  | expr e | spread e => rw [Emitters.serverChild, Emitters.serverChild, h.sameContext e hvalue]
  | markup m => exact h.markup m hvalue

/-- Emitters that agree make the same of an element on the server. -/
theorem serverElement (e : Element) (he : e.depth ≤ depth) :
    g.serverElement e = g'.serverElement e := by
  have hpieces : ∀ piece ∈ (e.skeleton 0).pieces, g.serverValue? piece = g'.serverValue? piece := by
    intro piece hpiece
    rcases piece with text | part
    · rfl
    · -- A slot belongs to a part of the skeleton, and parts are less deep than the element.
      have hpart := Element.mem_parts_of_slot hpiece
      rw [e.skeleton_parts] at hpart
      have hlt := Nat.lt_of_lt_of_le (e.depth_parts [] 0 part hpart) he
      obtain ⟨path, name | marker, value⟩ := part
      · exact h.serverAttribute? (name.getD "") value hlt
      · rw [Emitters.serverValue?, Emitters.serverValue?, h.serverChild value hlt]
  unfold Emitters.serverElement
  dsimp only
  rw [Emit.mapM_congr hpieces]

/-! ## Markup -/

/-- Emitters that agree make the same of an element. -/
theorem element (e : Element) (he : e.depth ≤ depth) : g.element e = g'.element e := by
  unfold Emitters.element
  rw [h.component e he, h.serverElement e he, h.elementBlock e he]

/-- Emitters that agree make the same of markup. -/
theorem markupText (m : Markup) (hm : m.depth ≤ depth) : g.markupText m = g'.markupText m := by
  cases m with
  | element e =>
    rw [Markup.depth] at hm
    exact h.element e (Nat.le_of_succ_le hm)
  | fragment span children => exact h.fragment hm

end Emitters.Agree

/-! ## The recursion without regard to depth -/

/-- Emitters for trees of two depths agree on trees of less than both. -/
theorem Emitters.below_agree {depth n n' : Nat} (hn : depth ≤ n) (hn' : depth ≤ n') :
    Agree depth (below n) (below n') := by
  induction depth generalizing n n' with
  | zero =>
    exact ⟨fun _ _ he => absurd he (Nat.not_lt_zero _), fun _ hm => absurd hm (Nat.not_lt_zero _),
      fun _ he => absurd he (Nat.not_lt_zero _)⟩
  | succ depth ih =>
    -- One level down, the emitters agree on all constituents of a tree of this depth.
    obtain ⟨n, rfl⟩ := Nat.exists_eq_add_of_le' hn
    obtain ⟨n', rfl⟩ := Nat.exists_eq_add_of_le' hn'
    have hless : Agree depth (below (n + depth)) (below (n' + depth)) := ih (by omega) (by omega)
    exact ⟨fun hc e he => hless.exprText hc e (Nat.le_of_lt_succ he),
      fun m hm => hless.markupText m (Nat.le_of_lt_succ hm),
      fun e he => hless.elementBlock e (Nat.le_of_lt_succ he)⟩

/-- The statements that make an element. -/
def emitBlock (e : Element) : Emit String := (Emitters.below (e.depth + 1)).block e

/-- The emitters for trees of any depth. -/
def emitters : Emitters := ⟨emitExpr, emitMarkup, emitBlock⟩

/-- The emitters for trees of a depth agree with those for trees of any depth. -/
theorem Emitters.below_agree_emitters (depth : Nat) : Agree depth (below depth) emitters where
  expr hc e he := (below_agree he (Nat.le_refl _)).expr hc e (Nat.lt_succ_self _)
  markup m hm := (below_agree hm (Nat.le_refl _)).markup m (Nat.lt_succ_self _)
  block e he := (below_agree he (Nat.le_refl _)).block e (Nat.lt_succ_self _)

/-- The code of an expression is made from the code of its constituents. -/
theorem emitExpr_eq (c : Context) (e : Expr) : emitExpr c e = emitters.exprText c e :=
  (Emitters.below_agree_emitters e.depth).exprText (.refl c) e (Nat.le_refl _)

/-- The code of markup is made from the code of its constituents. -/
theorem emitMarkup_eq (m : Markup) : emitMarkup m = emitters.markupText m :=
  (Emitters.below_agree_emitters m.depth).markupText m (Nat.le_refl _)

/-- The block of an element is made from the code of its constituents. -/
theorem emitBlock_eq (e : Element) : emitBlock e = emitters.elementBlock e :=
  (Emitters.below_agree_emitters e.depth).elementBlock e (Nat.le_refl _)

/-- The code of an expression is the same in contexts that are alike. -/
theorem emitExpr_congr {c c' : Context} (hc : c.Alike c') (e : Expr) :
    emitExpr c e = emitExpr c' e :=
  (Emitters.below_agree (Nat.le_refl _) (Nat.le_refl _)).expr hc e (Nat.lt_succ_self _)

end MarkupCompiler
