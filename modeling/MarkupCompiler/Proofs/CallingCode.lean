import MarkupCompiler.Proofs.CodeTexts
import MarkupCompiler.Proofs.Constituents
import MarkupCompiler.Proofs.ParserResult
import MarkupCompiler.Proofs.SpelledParts

/-!
# Code calls the helpers of its target

For a source without dollar signs, ampersands and escapes, all code that emitters make calls helpers
of the target only, and has their names nowhere else. What is known of the tree is that it stands in
its place in the source and is spelled in it (`Expr.Fits`), as it is after reading a module. What is
known of the table is that no template in it has a dollar sign (`TemplateTable.IsPlain`).

Each emitter is shown to make such code if the emitters for the parts do (`Emitters.Lawful`). Here
these are the emitters of expressions, components and fragments.
-/

namespace MarkupCompiler

open Syntax Text Layout

/-! ## Trees in their place -/

namespace Syntax

/-- An expression stands in its place in a source and is spelled in it. -/
structure Expr.Fits (source : List Char) (e : Expr) : Prop where
  opened : e.layout.Opened source
  spelled : e.IsSpelled source

/-- Markup stands in its place in a source and is spelled in it. -/
structure Markup.Fits (source : List Char) (m : Markup) : Prop where
  opened : m.layout.Opened source
  spelled : m.IsSpelled source

/-- An element stands in its place in a source and is spelled in it. -/
structure Element.Fits (source : List Char) (e : Element) : Prop where
  opened : e.layout.Opened source
  spelled : e.IsSpelled source

variable {source : List Char}

/-- An element is spelled if its name, its attributes and its children are. -/
theorem Element.isSpelled_iff {e : Element} : e.IsSpelled source ↔ e.tag.IsSpelled source ∧
    attributesSpelled source e.attributes ∧ childrenSpelled source e.children := by
  obtain ⟨span, tag, attributes, children⟩ := e
  rfl

/-- Expressions in their places fit one by one. -/
theorem exprs_fit {es : List Expr} (hopened : AllOpened source (exprsLayouts es))
    (hspelled : exprsSpelled source es) : ∀ e ∈ es, e.Fits source := fun e he =>
  ⟨hopened _ (layout_mem_exprsLayouts he), exprsSpelled_iff.1 hspelled e he⟩

/-- The parts of what stands in its place do so too. -/
theorem allOpened_parts {x : Layout} (h : x.Opened source) : AllOpened source x.parts := fun _ hy =>
  h.of_mem (mem_nodes_of_mem_inner (mem_inner_of_mem_parts hy))

/-- Markup of a stretch starts before the stretch ends. -/
theorem Stretch.Of.start_le {stretch : Stretch} {x : Layout} (hof : stretch.Of x)
    (hx : x.Opened source) {m : Markup} (hm : m ∈ stretch.markups) :
    m.layout.span.start ≤ stretch.span.stop := by
  have hstart := start_le_reach m.isMarkup_layout
  have hmem : m.layout ∈ stretch.markups.map Markup.layout := List.mem_map_of_mem hm
  rcases hof.cases with ⟨hspan, hmarkups⟩ | ⟨span, params, body, rfl, hspan, hmarkups⟩
  · rw [hmarkups] at hmem
    rw [hspan]
    calc m.layout.span.start ≤ m.layout.reach := hstart
      _ ≤ x.reach := reach_le_of_mem_nodes (mem_of_mem_outermost hmem).1
      _ ≤ x.span.stop := hx.reach_le
  · rw [hmarkups] at hmem
    rw [hspan]
    calc m.layout.span.start ≤ m.layout.reach := hstart
      _ ≤ params.reach := reach_le_of_mem_nodes (mem_of_mem_outermost hmem).1
      _ ≤ body.span.start := (hx _ (mem_nodes_self _)).head rfl

/-- A tag opens between characters of a slice, or before the slice. -/
theorem isCut_of_opensTag {part : List Char} {span : Span} (hpart : slice? source span = some part)
    {start : Nat} (hopens : Grammar.OpensTag source start) (hle : start ≤ span.stop) :
    IsCut part (start - span.start) := by
  obtain ⟨before, c, rest, htext, hstart, -⟩ := hopens
  have hcut : IsCut source start := isCut_iff.2 ⟨before, '<' :: c :: rest, htext, hstart⟩
  rcases Nat.le_total span.start start with hfrom | hfrom
  · exact hcut.sub_start hpart hfrom hle
  · rw [Nat.sub_eq_zero_of_le hfrom]
    exact isCut_iff.2 ⟨[], part, rfl, rfl⟩

/-- What fills a slot stands in its place and is spelled in the source. -/
def PartValue.Fits (source : List Char) : PartValue → Prop
  | .expr value | .spread value => value.Fits source
  | .markup m => m.Fits source

/-- The parts of an element stand in their places. -/
theorem Element.Fits.parts {e : Element} (h : e.Fits source) (hplain : PlainSource source) :
    ∀ part ∈ (e.skeleton 0).parts, part.value.Fits source ∧
      ∀ name, part.place = .inTag (some name) → Lacks '$' name := by
  intro part hpart
  rw [← e.partsOf_skeleton_pieces] at hpart
  obtain ⟨piece, hpiece, hslot⟩ := List.mem_filterMap.1 hpart
  have hisPlain := e.isPlain_skeleton hplain h.spelled 0 piece hpiece
  rcases piece with text | slot
  · cases hslot
  · obtain rfl : slot = part := Option.some.inj hslot
    obtain ⟨hname, hspelled⟩ := hisPlain
    rw [e.partsOf_skeleton_pieces, e.skeleton_parts] at hpart
    have hopened := h.opened.of_mem (mem_nodes_of_mem_inner (e.layout_parts [] 0 slot hpart))
    refine ⟨?_, hname⟩
    obtain ⟨path, place, value⟩ := slot
    cases value <;> exact ⟨hopened, hspelled⟩

end Syntax

/-! ## Emitters -/

open Emit

/-- What is added to the properties of a component is code. -/
def Emitters.Addition.IsCode (target : Target) : Addition → Prop
  | entry text | object text => MarkupCompiler.IsCode target text

/-- Emitters make code that only calls the helpers of the target, out of what stands in its place in
a plain source. The code of markup has a bracket at its end. Blocks are made for the client only. -/
structure Emitters.Lawful (env : Env) (g : Emitters) : Prop where
  plain : PlainSource env.source
  expr : ∀ (c : Context) (e : Expr), e.Fits env.source →
    Yields env (IsCode env.options.target) (g.expr c e)
  markup : ∀ m : Markup, m.Fits env.source → Yields env (IsClosed env.options.target) (g.markup m)
  block : env.options.target = .client → ∀ e : Element, e.Fits env.source →
    Yields env (IsCode .client) (g.block e)

namespace Emitters.Lawful

variable {env : Env} {g : Emitters} (h : g.Lawful env)

include h

/-! ### Stretches and texts -/

/-- A stretch with code in place of its markup is code. -/
theorem splice {x : Layout} (hx : x.Opened env.source) {stretch : Stretch} (hof : stretch.Of x)
    (hspelled : AllSpelled env.source stretch.markups) :
    Yields env (IsCode env.options.target) (g.splice stretch) := by
  refine (Yields.slice stretch.span).bind ?_
  rintro _ ⟨part, hpart, rfl⟩
  have hcode : ∀ m ∈ stretch.markups, Yields env (fun r : Replacement =>
      IsCut part (r.span.start - stretch.span.start) ∧ ClosedCode env.options.target r.text)
      (do return ⟨m.span, (← g.markup m).toList⟩) := by
    intro m hm
    have hmem := (mem_of_mem_outermost (hof.layout_mem_outermost hm)).1
    have hopens := (hx _ hmem).opens m.isMarkup_layout
    have hle := hof.start_le hx hm
    rw [m.span_layout] at hopens hle
    refine (h.markup m ⟨hx.of_mem hmem, hspelled m hm⟩).bind fun code hclosed => ?_
    exact .pure ⟨isCut_of_opensTag hpart hopens hle, hclosed⟩
  refine (Yields.mapM hcode).bind fun rs hrs => .pure ?_
  have hplain : '$' ∉ part := fun hmem => h.plain.dollar (mem_of_slice hpart hmem)
  unfold IsCode
  rw [String.toList_ofList, String.toList_ofList]
  exact OnlyCalls.applyAll hplain (fun r hr => (hrs r hr).1) (fun r hr => (hrs r hr).2)

/-- The text of type arguments is code. -/
theorem typeArguments (types : Option Span) :
    Yields env (IsCode env.options.target) (Emitters.typeArguments types) := by
  cases types with
  | none => exact .pure (isCode_of_lacks (by decide))
  | some span => exact (Yields.source h.plain span).mono fun _ => isCode_of_lacks

/-- What a type says about an expression is code after the expression. -/
theorem typed (mark : TypeMark) {inner : String} (hinner : IsCode env.options.target inner) :
    Yields env (IsCode env.options.target) (Emitters.typed mark inner) := by
  cases mark with
  | asType type | satisfies type =>
    refine (Yields.source h.plain type).bind fun text htext => .pure ?_
    exact isCode_separated hinner (by decide) (isCode_of_lacks htext)
  | assertion type =>
    refine (Yields.source h.plain type).bind fun text htext => .pure ?_
    repeat' with_reducible apply isCode_append
    all_goals simp +decide [hinner, htext]
  | nonNull => exact .pure (isCode_append hinner (isCode_of_lacks (by decide)))
  | instantiation types =>
    exact (Yields.source h.plain types).bind fun text htext =>
      .pure (isCode_append hinner (isCode_of_lacks htext))

/-! ### Expressions -/

/-- Code of an operand is code of an expression. -/
theorem operand (c : Context) {e : Expr} (he : e.Fits env.source) :
    Yields env (IsCode env.options.target) (g.operand c e) := h.expr c.operand e he

/-- The code of operands. -/
theorem operands (c : Context) {es : List Expr} (hes : ∀ e ∈ es, e.Fits env.source) :
    Yields env (fun texts => ∀ text ∈ texts, IsCode env.options.target text)
      (es.mapM (g.operand c)) :=
  .mapM fun e he => h.operand c (hes e he)

/-- The items of an array or of a call, with `...` before those that are spread. -/
theorem items (c : Context) {items : List Item}
    (hopened : AllOpened env.source (itemsLayouts items))
    (hspelled : itemsSpelled env.source items) :
    Yields env (fun texts => ∀ text ∈ texts, IsCode env.options.target text) (g.items c items) := by
  refine .mapM fun item hitem => ?_
  have hopened : AllOpened env.source item.layouts := fun y hy =>
    hopened y (mem_itemsLayouts hitem hy)
  have hspelled := itemsSpelled_iff.1 hspelled item hitem
  cases item with
  | hole => exact .pure (isCode_of_lacks (by decide))
  | value e => exact h.operand c ⟨hopened _ (.head _), hspelled⟩
  | spread e =>
    refine (h.operand c ⟨hopened _ (.head _), hspelled⟩).bind fun text htext => ?_
    exact .pure (isCode_append (isCode_of_lacks (by decide)) htext)

/-- A key is written as it is read, or in brackets if it is computed. -/
theorem propertyKey (c : Context) {key : Expr} (isComputed : Bool) (hkey : key.Fits env.source) :
    Yields env (IsCode env.options.target) (g.propertyKey c key isComputed) := by
  unfold Emitters.propertyKey
  split
  · refine (h.operand c hkey).bind fun text htext => .pure ?_
    exact isCode_enclosed (isCode_of_lacks (by decide)) htext (by decide)
  · split
    · have hname := hkey.spelled
      exact .pure (isCode_of_lacks (Spelled.lacks hname h.plain).1)
    · exact Yields.token h.plain _

/-- A property of an object; a method is spliced as it stands. -/
theorem property (c : Context) {property : Property}
    (hopened : AllOpened env.source property.layouts) (hspelled : property.IsSpelled env.source) :
    Yields env (IsCode env.options.target) (g.property c property) := by
  cases property with
  | spread e =>
    refine (h.operand c ⟨hopened _ (.head _), hspelled⟩).bind fun text htext => ?_
    exact .pure (isCode_append (isCode_of_lacks (by decide)) htext)
  | field key isComputed value =>
    have hkey : key.Fits env.source :=
      ⟨allOpened_parts (hopened _ (.head _)) _ (.head _), hspelled.1⟩
    have hvalue : value.Fits env.source := ⟨hopened _ mem_second, hspelled.2⟩
    refine (h.propertyKey c isComputed hkey).bind fun keyText hkeyText =>
      (h.operand c hvalue).bind fun text htext => .pure ?_
    exact isCode_separated hkeyText (by decide) htext
  | shorthand value => exact h.operand c ⟨hopened _ (.head _), hspelled⟩
  | shorthandDefault name value =>
    have hname : name.Fits env.source := ⟨hopened _ (.head _), hspelled.1⟩
    have hvalue : value.Fits env.source := ⟨hopened _ mem_second, hspelled.2⟩
    refine (h.operand c hname).bind fun nameText hnameText =>
      (h.operand c hvalue).bind fun text htext => .pure ?_
    exact isCode_separated hnameText (by decide) htext
  | method span key function =>
    refine h.splice (hopened _ (.head _)) (.method span key function) ?_
    exact (key.allSpelled_markups hspelled.1).append (function.allSpelled_markups hspelled.2)

omit h in
/-- Stretches of a template literal with code between them are code. -/
theorem isCode_templateText {target : Target} {quasis : List Quasi} {texts : List String}
    (hquasis : ∀ quasi ∈ quasis, Lacks '$' quasi.raw)
    (htexts : ∀ text ∈ texts, IsCode target text) :
    IsCode target (templateText quasis texts) := by
  have hbrace : IsCode target "$\x7b" := OnlyCalls.brace .nil
  fun_induction templateText quasis texts with
  | case1 => exact isCode_of_lacks (by decide)
  | case2 quasi quasis value values ih =>
    obtain ⟨hquasi, hquasis⟩ := List.forall_mem_cons.1 hquasis
    obtain ⟨hvalue, hvalues⟩ := List.forall_mem_cons.1 htexts
    have hrest := ih hquasis hvalues
    repeat' with_reducible apply isCode_append
    all_goals simp +decide [hquasi, hvalue, hrest, hbrace]
  | case3 quasi quasis ih =>
    obtain ⟨hquasi, hquasis⟩ := List.forall_mem_cons.1 hquasis
    exact isCode_append (isCode_of_lacks hquasi) (ih hquasis nofun)

/-- A template literal with the code of its values. -/
theorem template (c : Context) {quasis : List Quasi}
    (hquasis : ∀ quasi ∈ quasis, quasi.IsSpelled env.source) {values : List Expr}
    (hvalues : ∀ e ∈ values, e.Fits env.source) :
    Yields env (IsCode env.options.target) (g.template c quasis values) := by
  refine (h.operands c hvalues).bind fun texts htexts => .pure ?_
  have hraw : ∀ quasi ∈ quasis, Lacks '$' quasi.raw := fun quasi hquasi =>
    ((hquasis quasi hquasi).1.lacks h.plain).1
  have htext := isCode_templateText hraw htexts
  exact isCode_enclosed (isCode_of_lacks (by decide)) htext (by decide)

/-- A function is its head and its body: an expression, or a block that is spliced. -/
theorem function {span paramSpan : Span} {params : List Expr} {body : Body}
    (hopened : (Layout.mk .function span
      (.mk .plain paramSpan (exprsLayouts params) :: body.layouts)).Opened env.source)
    (hparams : exprsSpelled env.source params) (hbody : body.IsSpelled env.source) :
    Yields env (IsCode env.options.target) (g.function span params body) := by
  have hhead : ∀ bodyStart, body.start? = some bodyStart →
      Yields env (IsCode env.options.target) (g.splice (.head span params bodyStart)) :=
    fun bodyStart hstart => h.splice hopened (.head span paramSpan params body bodyStart hstart)
      (exprs_allSpelled_markups params hparams)
  have hparts := allOpened_parts hopened
  cases body with
  | missing => exact Yields.token h.plain span
  | expr value =>
    have hvalue : value.Fits env.source := ⟨hparts _ mem_second, hbody⟩
    exact (hhead _ rfl).bind fun head hcode =>
      (h.expr .callback value hvalue).bind fun text htext => .pure (isCode_append hcode htext)
  | block bodySpan statements =>
    have hblock := h.splice (hparts _ mem_second)
      (.body bodySpan statements) (stmts_allSpelled_markups statements hbody)
    exact (hhead _ rfl).bind fun head hcode => hblock.bind fun text htext =>
      .pure (isCode_append hcode htext)

/-- A call with its type arguments, or the accessor alone where the runtime calls it. -/
theorem call (c : Context) {callee : Expr} (types : Option Span) {arguments : List Item}
    (isOptional : Bool) (hcallee : callee.Fits env.source)
    (hopened : AllOpened env.source (itemsLayouts arguments))
    (hspelled : itemsSpelled env.source arguments) :
    Yields env (IsCode env.options.target) (g.call c callee types arguments isOptional) := by
  unfold Emitters.call
  split
  · exact h.expr .plain callee hcallee
  · refine (h.operand c hcallee).bind fun text htext => (h.typeArguments types).bind
      fun typeText htypeText => (h.items c hopened hspelled).bind fun texts htexts => .pure ?_
    have hjoined := isCode_joinWith (by decide : Lacks '$' ", ") htexts
    repeat' with_reducible apply isCode_append
    all_goals cases isOptional <;> simp +decide [htext, htypeText, hjoined]

/-- A literal is written as its token. -/
theorem literal (span : Span) (value : Literal) :
    Yields env (IsCode env.options.target) (Emitters.literal span value) := by
  cases value with
  | null => exact .pure (isCode_of_lacks (by decide))
  | boolean value => cases value <;> exact .pure (isCode_of_lacks (by decide))
  | number | bigint | regexp | string => exact Yields.token h.plain span

omit h in
/-- What stands between a unary operator and its operand has no dollar. -/
theorem lacks_unaryGap (op : UnaryOp) (operand : String) : Lacks '$' (unaryGap op operand) := by
  unfold unaryGap
  split <;> decide

/-- The code of an expression only calls the helpers of the target, if it does so for markup. -/
theorem exprText (c : Context) {e : Expr} (he : e.Fits env.source) :
    Yields env (IsCode env.options.target) (g.exprText c e) := by
  have hparts : AllOpened env.source e.layout.parts := allOpened_parts he.opened
  have hspelled := he.spelled
  -- The texts of the parts are code, and what is put between them calls nothing.
  cases e with
  | literal span value => exact h.literal span value
  | ident span name => exact .pure (isCode_of_lacks (Spelled.lacks hspelled h.plain).1)
  | metaProperty span object property =>
    have hobject := (Spelled.lacks hspelled.1 h.plain).1
    have hproperty := (Spelled.lacks hspelled.2 h.plain).1
    exact .pure (isCode_of_lacks (by simp +decide [hobject, hproperty]))
  | superRef | thisRef => exact .pure (isCode_of_lacks (by decide))
  | template span quasis values =>
    exact h.template c hspelled.1 (exprs_fit hparts hspelled.2)
  | array span items =>
    refine (h.items c hparts hspelled).bind fun texts htexts => .pure ?_
    have hjoined := isCode_joinWith (by decide : Lacks '$' ", ") htexts
    repeat' with_reducible apply isCode_append
    all_goals cases endsInHole items <;> simp +decide [hjoined]
  | object span properties =>
    refine (Yields.mapM fun property hproperty => h.property c (fun y hy => ?_)
      (propertiesSpelled_iff.1 hspelled property hproperty)).bind fun texts htexts =>
        .pure (isCode_braced htexts)
    exact hparts y (mem_propertiesLayouts hproperty hy)
  | arrow | function => exact h.function he.opened hspelled.1 hspelled.2
  | classExpr span parts =>
    exact h.splice he.opened (.classText span parts) (stmts_allSpelled_markups parts hspelled)
  | assign span op target value =>
    have htarget := h.splice (hparts _ (.head _)) (.target target)
      (target.allSpelled_markups hspelled.1)
    have hvalue := h.operand c ⟨hparts _ mem_second, hspelled.2⟩
    refine htarget.bind fun targetText htargetText => hvalue.bind fun text htext => .pure ?_
    repeat' with_reducible apply isCode_append
    all_goals simp +decide [htargetText, htext]
  | update span op isBefore target =>
    have htarget := h.splice (hparts _ (.head _)) (.target target)
      (target.allSpelled_markups hspelled)
    refine htarget.bind fun text htext => ?_
    cases isBefore with
    | true => exact .pure (isCode_append (isCode_of_lacks op.lacks_text) htext)
    | false => exact .pure (isCode_append htext (isCode_of_lacks op.lacks_text))
  | unary span op operand =>
    refine (h.operand c ⟨hparts _ (.head _), hspelled⟩).bind fun text htext => .pure ?_
    have hgap := lacks_unaryGap op text
    repeat' with_reducible apply isCode_append
    all_goals simp [htext, hgap]
  | binary span op left right =>
    have hleft := h.operand c ⟨hparts _ (.head _), hspelled.1⟩
    have hright := h.operand c ⟨hparts _ mem_second, hspelled.2⟩
    refine hleft.bind fun leftText hleftText => hright.bind fun text htext => .pure ?_
    repeat' with_reducible apply isCode_append
    all_goals simp +decide [hleftText, htext]
  | hasPrivate span name right =>
    have hname := (Spelled.lacks hspelled.1 h.plain).1
    refine (h.operand c ⟨hparts _ (.head _), hspelled.2⟩).bind fun text htext => .pure ?_
    repeat' with_reducible apply isCode_append
    all_goals simp +decide [hname, htext]
  | conditional span test consequent alternate =>
    have htest := h.operand c ⟨hparts _ (.head _), hspelled.1⟩
    have hconsequent := h.operand c ⟨hparts _ mem_second, hspelled.2.1⟩
    have halternate := h.operand c
      ⟨hparts _ (List.mem_cons_of_mem _ mem_second), hspelled.2.2⟩
    refine htest.bind fun testText htestText => hconsequent.bind fun yesText hyesText =>
      halternate.bind fun noText hnoText => .pure ?_
    repeat' with_reducible apply isCode_append
    all_goals simp +decide [htestText, hyesText, hnoText]
  | sequence span parts =>
    exact (h.operands c (exprs_fit hparts hspelled)).bind fun texts htexts =>
      .pure (isCode_joinWith (by decide) htexts)
  | await span operand =>
    refine (h.operand c ⟨hparts _ (.head _), hspelled⟩).bind fun text htext => ?_
    exact .pure (isCode_append (isCode_of_lacks (by decide)) htext)
  | yield span isDelegate operand =>
    have hword : IsCode env.options.target (if isDelegate then "yield*" else "yield") := by
      cases isDelegate <;> exact isCode_of_lacks (by decide)
    cases operand with
    | none => exact .pure hword
    | some operand =>
      refine (h.operand c ⟨hparts _ (.head _), hspelled⟩).bind fun text htext => ?_
      exact .pure (isCode_append (isCode_append hword (isCode_of_lacks (by decide))) htext)
  | call span callee types arguments isOptional =>
    have hrest := (allOpened_append.1 (allOpened_cons.1 hparts).2).2
    exact h.call c types isOptional ⟨hparts _ (.head _), hspelled.1⟩ hrest hspelled.2
  | construct span callee types arguments =>
    have hrest := (allOpened_append.1 (allOpened_cons.1 hparts).2).2
    refine (h.operand c ⟨hparts _ (.head _), hspelled.1⟩).bind fun text htext =>
      (h.typeArguments types).bind fun typeText htypeText =>
        (h.items c hrest hspelled.2).bind fun texts htexts => .pure ?_
    have hjoined := isCode_joinWith (by decide : Lacks '$' ", ") htexts
    repeat' with_reducible apply isCode_append
    all_goals simp +decide [htext, htypeText, hjoined]
  | importCall span hasPhase source options =>
    have hsource := h.operand c ⟨hparts _ (.head _), hspelled.1⟩
    cases hasPhase with
    | true =>
      exact h.splice he.opened (.importCall span source options)
        ((source.allSpelled_markups hspelled.1).append
          (option_allSpelled_markups options hspelled.2))
    | false =>
      refine hsource.bind fun text htext => ?_
      cases options with
      | none =>
        refine .pure ?_
        exact isCode_enclosed (isCode_of_lacks (by decide)) htext (by decide)
      | some options =>
        have hoptions := h.operand c
          ⟨hparts _ mem_second, hspelled.2⟩
        refine hoptions.bind fun optionText hoptionText => .pure ?_
        repeat' with_reducible apply isCode_append
        all_goals simp +decide [htext, hoptionText]
  | tagged span tag types quasis values =>
    have hrest := (allOpened_append.1 (allOpened_cons.1 hparts).2).2
    have htemplate := h.template c hspelled.2.1 (exprs_fit hrest hspelled.2.2)
    exact (h.operand c ⟨hparts _ (.head _), hspelled.1⟩).bind fun text htext =>
      (h.typeArguments types).bind fun typeText htypeText =>
        htemplate.bind fun literal hliteral =>
          .pure (isCode_append (isCode_append htext htypeText) hliteral)
  | chain span inner => exact h.expr c inner ⟨hparts _ (.head _), hspelled⟩
  | paren span inner =>
    refine (h.expr c inner ⟨hparts _ (.head _), hspelled⟩).bind fun text htext => .pure ?_
    exact isCode_enclosed (isCode_of_lacks (by decide)) htext (by decide)
  | member span object name isOptional =>
    have hname := MemberName.lacks_text h.plain hspelled.2
    refine (h.operand c ⟨hparts _ (.head _), hspelled.1⟩).bind fun text htext => .pure ?_
    repeat' with_reducible apply isCode_append
    all_goals cases isOptional <;> simp +decide [htext, hname]
  | index span object key isOptional =>
    have hobject := h.operand c ⟨hparts _ (.head _), hspelled.1⟩
    have hkey := h.operand c ⟨hparts _ mem_second, hspelled.2⟩
    refine hobject.bind fun text htext => hkey.bind fun keyText hkeyText => .pure ?_
    repeat' with_reducible apply isCode_append
    all_goals cases isOptional <;> simp +decide [htext, hkeyText]
  | typed span mark inner =>
    have hinner := h.expr c inner
      ⟨hparts _ (List.mem_append_right _ (.head _)), hspelled⟩
    exact hinner.bind fun text htext => h.typed mark htext
  | markup m => exact (h.markup m ⟨he.opened, hspelled⟩).mono fun _ hcode => hcode.isCode

/-! ### Components and fragments -/

/-- The code of a child, if there is any. -/
theorem childValue? {child : Child} (hopened : AllOpened env.source child.layouts)
    (hspelled : child.IsSpelled env.source) :
    Yields env (fun text? => ∀ text ∈ text?, IsCode env.options.target text)
      (g.childValue? child) := by
  have hsome : ∀ {text : String}, IsCode env.options.target text →
      ∀ other ∈ some text, IsCode env.options.target other :=
    fun htext other hother => Option.some.inj hother ▸ htext
  cases child with
  | text raw =>
    refine .pure ?_
    unfold textValue?
    dsimp only
    split
    · exact nofun
    · exact hsome (isCode_of_lacks (lacks_quote (lacks_decode_clean h.plain hspelled)))
  | markup m =>
    exact (h.markup m ⟨hopened _ (.head _), hspelled⟩).bind fun text htext =>
      .pure (hsome htext.isCode)
  | expr e =>
    exact (h.expr .reactive e ⟨hopened _ (.head _), hspelled⟩).bind
      fun text htext => .pure (hsome htext)
  | empty => exact .pure nofun
  | spread e =>
    exact (h.expr .plain e ⟨hopened _ (.head _), hspelled⟩).bind
      fun text htext => .pure (hsome (isCode_append (isCode_of_lacks (by decide)) htext))

omit h in
/-- Results that are there are among those that may be missing. -/
theorem forall_mem_filterMap {α : Type} {P : α → Prop} {as : List (Option α)}
    (has : ∀ a? ∈ as, ∀ a ∈ a?, P a) : ∀ a ∈ as.filterMap id, P a := by
  intro a ha
  obtain ⟨a?, hmem, heq⟩ := List.mem_filterMap.1 ha
  exact has a? hmem a heq

/-- The code of the children that have any. -/
theorem childValues {children : List Child}
    (hopened : AllOpened env.source (childrenLayouts children))
    (hspelled : childrenSpelled env.source children) :
    Yields env (fun texts => ∀ text ∈ texts, IsCode env.options.target text)
      (g.childValues children) := by
  refine (Yields.mapM fun child hchild => h.childValue? (fun y hy => ?_)
    (childrenSpelled_iff.1 hspelled child hchild)).bind fun texts htexts =>
      .pure (forall_mem_filterMap htexts)
  exact hopened y (mem_childrenLayouts hchild hy)

/-- The value of a property of a component. -/
theorem propertyValue (component name : String) {value : AttributeValue}
    (hopened : AllOpened env.source value.layouts) (hspelled : value.IsSpelled env.source) :
    Yields env (IsCode env.options.target) (g.propertyValue component name value) := by
  cases value with
  | bare | empty => exact .pure (isCode_of_lacks (by decide))
  | text raw => exact .pure (isCode_of_lacks (lacks_quote (lacks_decode h.plain hspelled)))
  | markup m =>
    exact (h.markup m ⟨hopened _ (.head _), hspelled⟩).mono
      fun _ hcode => hcode.isCode
  | expr e =>
    have he : e.Fits env.source := ⟨hopened _ (.head _), hspelled⟩
    refine .read ?_
    dsimp only
    split
    · unfold Emitters.condition
      split
      · exact h.expr .plain e he
      · exact (h.expr .callback e he).bind fun text htext =>
          .pure (isCode_append (isCode_of_lacks (by decide)) htext)
    · split
      · exact h.expr .event e he
      · exact h.expr .reactive e he

/-- What an attribute adds to the properties, if it adds anything. -/
theorem addition? (component : String) {a : Attribute}
    (hopened : AllOpened env.source a.layouts) (hspelled : a.IsSpelled env.source) :
    Yields env (fun addition? => ∀ addition ∈ addition?, addition.IsCode env.options.target)
      (g.addition? component a) := by
  have hsome : ∀ {addition : Addition}, addition.IsCode env.options.target →
      ∀ other ∈ some addition, other.IsCode env.options.target :=
    fun haddition other hother => Option.some.inj hother ▸ haddition
  cases a with
  | spread e =>
    exact (h.expr .plain e ⟨hopened _ (.head _), hspelled⟩).bind
      fun text htext => .pure (@hsome (.object text) htext)
  | named name value =>
    have hname : Lacks '$' (quoteUnless isName name) :=
      lacks_quoteUnless (Spelled.lacks hspelled.1 h.plain).1
    unfold Emitters.addition?
    dsimp only
    split
    · exact .pure nofun
    · refine (h.propertyValue component name hopened hspelled.2).bind fun text htext =>
        .pure (hsome ?_)
      refine isCode_append (isCode_of_lacks ?_) htext
      simp +decide [hname]

/-- What the children add: one value, or a list of them. -/
theorem childrenAddition? {children : List Child}
    (hopened : AllOpened env.source (childrenLayouts children))
    (hspelled : childrenSpelled env.source children) :
    Yields env (fun addition? => ∀ addition ∈ addition?, addition.IsCode env.options.target)
      (g.childrenAddition? children) := by
  refine (h.childValues hopened hspelled).bind fun texts htexts => ?_
  split
  · exact .pure nofun
  · rename_i value
    have hvalue := htexts value (.head _)
    refine .pure fun addition haddition => ?_
    obtain rfl := Option.some.inj haddition
    refine isCode_append (isCode_of_lacks (by decide)) ?_
    split
    · exact isCode_enclosed (isCode_of_lacks (by decide)) hvalue (by decide)
    · exact hvalue
  · refine .pure fun addition haddition => ?_
    obtain rfl := Option.some.inj haddition
    have hjoined := isCode_joinWith (by decide : Lacks '$' ", ") htexts
    unfold Addition.IsCode
    exact isCode_enclosed (isCode_of_lacks (by decide)) hjoined (by decide)

omit h in
/-- Objects that are gathered of code are code. -/
theorem isCode_gather {target : Target} {entries : List String} {additions : List Addition}
    (hentries : ∀ text ∈ entries, IsCode target text)
    (hadditions : ∀ addition ∈ additions, addition.IsCode target) :
    ∀ text ∈ gather entries additions, IsCode target text := by
  have hbraced : ∀ entries : List String, (∀ text ∈ entries, IsCode target text) →
      IsCode target (braced entries.reverse) :=
    fun entries hentries => isCode_braced fun text htext => hentries text (List.mem_reverse.1 htext)
  fun_induction gather entries additions with
  | case1 => exact nofun
  | case2 entries => exact List.forall_mem_singleton.2 (hbraced entries hentries)
  | case3 entries text rest ih =>
    obtain ⟨htext, hrest⟩ := List.forall_mem_cons.1 hadditions
    exact ih (List.forall_mem_cons.2 ⟨htext, hentries⟩) hrest
  | case4 text rest ih =>
    obtain ⟨htext, hrest⟩ := List.forall_mem_cons.1 hadditions
    exact List.forall_mem_cons.2 ⟨htext, ih nofun hrest⟩
  | case5 entries text rest _ ih =>
    obtain ⟨htext, hrest⟩ := List.forall_mem_cons.1 hadditions
    exact List.forall_mem_cons.2 ⟨hbraced entries hentries,
      List.forall_mem_cons.2 ⟨htext, ih nofun hrest⟩⟩

omit h in
/-- The properties of a component, merged where objects are spread. -/
theorem isCode_properties {target : Target} {additions : List Addition}
    (hadditions : ∀ addition ∈ additions, addition.IsCode target) :
    IsCode target (properties additions) := by
  have hgathered : ∀ text ∈ gather [] additions, IsCode target text :=
    isCode_gather nofun hadditions
  have hjoined := isCode_joinWith (by decide : Lacks '$' ", ") hgathered
  unfold properties
  split
  · exact isCode_enclosed (isCode_of_lacks (by decide)) hjoined (by decide)
  · split
    · rename_i object heq
      exact hgathered object (heq ▸ List.mem_singleton_self _)
    · exact isCode_braced nofun

/-- The code of a component only calls the helpers of the target. -/
theorem component {e : Element} (he : e.Fits env.source) :
    Yields env (IsClosed env.options.target) (g.component e) := by
  obtain ⟨htag, hattributes, hchildren⟩ := Element.isSpelled_iff.1 he.spelled
  have hparts := allOpened_parts he.opened
  rw [e.parts_layout] at hparts
  obtain ⟨hinTag, hinContent⟩ := allOpened_append.1 hparts
  have htag := TagName.lacks_text h.plain htag
  have hadditions := Yields.mapM fun a ha => h.addition? e.tag.text
    (fun y hy => hinTag y (mem_attributesLayouts ha hy)) (attributesSpelled_iff.1 hattributes a ha)
  refine hadditions.bind fun fromAttributes hfromAttributes =>
    (h.childrenAddition? hinContent hchildren).bind fun fromChildren hfromChildren => .pure ?_
  have hproperties := isCode_properties (forall_mem_filterMap
    (List.forall_mem_append.2 ⟨hfromAttributes, List.forall_mem_singleton.2 hfromChildren⟩))
  generalize properties ((fromAttributes ++ [fromChildren]).filterMap id) = object
    at hproperties ⊢
  refine isClosed_append "))" rfl (by decide) ?_
  repeat' with_reducible apply isCode_append
  all_goals simp +decide [htag, hproperties]

/-- The code of a fragment only calls the helpers of the target. -/
theorem fragment {children : List Child}
    (hopened : AllOpened env.source (childrenLayouts children))
    (hspelled : childrenSpelled env.source children) :
    Yields env (IsClosed env.options.target) (g.fragment children) := by
  refine (h.childValues hopened hspelled).bind fun texts htexts => .pure (isClosed_bracket ?_)
  exact isCode_append (isCode_of_lacks (by decide)) (isCode_joinWith (by decide) htexts)

end Emitters.Lawful

end MarkupCompiler
