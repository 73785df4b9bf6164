import MarkupCompiler.Compile.Compiler
import MarkupCompiler.Proofs.CallingCode

/-!
# Elements call the helpers of their target

The blocks of elements only call helpers of the client, and elements on the server only call helpers
of the server. With what is known of expressions and components this gives the step of an induction
on the depth to which emitters work (`Emitters.below_lawful`).
-/

namespace MarkupCompiler

open Syntax Text Layout Emit

namespace Emitters.Lawful

variable {env : Env} {g : Emitters} (h : g.Lawful env)

include h

/-! ### Blocks -/

/-- The code of what fills a slot. -/
theorem partValue (c : Context) {value : PartValue} (hvalue : value.Fits env.source) :
    Yields env (IsCode env.options.target) (g.partValue c value) := by
  cases value with
  | expr e | spread e => exact h.expr c e hvalue
  | markup m => exact (h.markup m hvalue).mono fun _ hcode => hcode.isCode

section

variable (hclient : env.options.target = .client)

include hclient

/-- The statement for an attribute: a spread, an event or a property. -/
theorem attributeBinding {target : String} (htarget : IsCode .client target) {part : Part}
    (hvalue : part.value.Fits env.source)
    (hname : ∀ name, part.place = .inTag (some name) → Lacks '$' name) :
    Yields env (IsCode .client) (g.attributeBinding target part) := by
  have hcode : ∀ c, Yields env (IsCode .client) (g.partValue c part.value) := fun c =>
    hclient ▸ h.partValue c hvalue
  obtain ⟨path, place, value⟩ := part
  have hname : Lacks '$' (Part.point ⟨path, place, value⟩).name := by
    rcases place with (_ | name) | marker
    · exact (by decide : Lacks '$' "")
    · exact hname name rfl
    · exact (by decide : Lacks '$' "")
  unfold Emitters.attributeBinding Emitters.setting
  dsimp only [Part.point] at hname hcode ⊢
  split
  · refine (hcode .plain).bind fun text htext => .pure ?_
    repeat' with_reducible apply isCode_append
    all_goals simp +decide [htarget, htext]
  · split
    · rename_i event hevent
      have hevent := lacks_quote (lacks_eventName hname hevent)
      refine (hcode .event).bind fun text htext => .pure ?_
      repeat' with_reducible apply isCode_append
      all_goals simp +decide [htarget, hevent, htext]
    · refine (hcode .plain).bind fun text htext => .pure ?_
      repeat' with_reducible apply isCode_append
      all_goals simp +decide [htarget, hname, htext]

/-- The statement that inserts a value, and removes the marker of one that never changes. -/
theorem insertion {marker : String} (hmarker : IsCode .client marker) {value : PartValue}
    (hvalue : value.Fits env.source) : Yields env (IsCode .client) (g.insertion marker value) := by
  have hcode : Yields env (IsCode .client) (g.partValue .reactive value) :=
    hclient ▸ h.partValue .reactive hvalue
  refine hcode.bind fun text htext => .pure ?_
  have hremoval :
      IsCode .client (if mayChange value then "" else " " ++ marker ++ ".remove();") := by
    split
    · exact isCode_of_lacks (by decide)
    · exact isCode_enclosed (isCode_of_lacks (by decide)) hmarker (by decide)
  repeat' with_reducible apply isCode_append
  all_goals simp +decide [hmarker, htext, hremoval]

/-- The parameters of an item, in parentheses. -/
theorem itemParams {item : ItemShape}
    (hopened : (Layout.mk .plain item.paramSpan (exprsLayouts item.params)).Opened env.source)
    (hspelled : exprsSpelled env.source item.params) :
    Yields env (IsCode .client) (g.itemParams item) := by
  have hcode : Yields env (IsCode .client) (g.splice (.params item.paramSpan item.params)) :=
    hclient ▸ h.splice hopened (.params item.paramSpan item.params)
      (exprs_allSpelled_markups item.params hspelled)
  refine hcode.bind fun text htext => .pure ?_
  split
  · exact htext
  · exact isCode_enclosed (isCode_of_lacks (by decide)) htext (by decide)

/-- The code of the key of an item, if it has one. -/
theorem itemKey? {e : Element} (he : e.Fits env.source) :
    Yields env (fun key? => ∀ key ∈ key?, IsCode .client key) (g.itemKey? e) := by
  unfold Emitters.itemKey?
  split
  · rename_i key hkey
    have hfits : key.Fits env.source :=
      ⟨he.opened.of_mem (mem_nodes_of_mem_inner (Element.layout_key hkey)),
        Element.isSpelled_key he.spelled hkey⟩
    have hcode : Yields env (IsCode .client) (g.expr .callback key) :=
      hclient ▸ h.expr .callback key hfits
    exact hcode.bind fun text htext => .pure fun _ hother => Option.some.inj hother ▸ htext
  · rename_i raw hkey
    have hraw := lacks_decode h.plain (Element.isSpelled_key he.spelled hkey)
    exact .pure fun _ hother => Option.some.inj hother ▸ isCode_of_lacks (lacks_quote hraw)
  · exact .pure nofun

/-- The code that makes a static element is a copy of its template. -/
theorem clone {e : Element} (he : e.Fits env.source) (hstatic : e.isStatic = true) :
    Yields env (fun template => IsCode .client ("_$clone(" ++ template))
      (staticTemplate e.staticHtml?) := by
  rw [Element.staticHtml?, if_pos hstatic]
  have hnamed : Yields env (IsCode .client) (internTemplate (e.skeleton 0).templateHtml) :=
    hclient ▸ Yields.intern (e.lacks_templateHtml h.plain he.spelled 0)
  exact hnamed.mono fun _ hname => isCode_append (isCode_of_callsOnly (by decide)) hname

omit h hclient in
/-- The call that binds a list, up to the function that makes an item. -/
theorem isCode_listCall {helper marker array : String} (hhelper : IsCode .client (helper ++ "("))
    (hmarker : IsCode .client marker) (harray : IsCode .client array) :
    IsCode .client
      (helper ++ ("(" ++ marker ++ ".parentNode, " ++ marker ++ ", " ++ array ++ ", ")) := by
  have hplace : IsCode .client (marker ++ ".parentNode, " ++ marker ++ ", " ++ array ++ ", ") := by
    repeat' with_reducible apply isCode_append
    all_goals simp +decide [hmarker, harray]
  have hcall := isCode_append hhelper hplace
  simp only [String.append_assoc] at hcall ⊢
  exact hcall

/-- The statement for a list, by its array or by the keys of its items. -/
theorem listBinding {marker : String} (hmarker : IsCode .client marker) {list : ListShape}
    (harray : list.array.Fits env.source) (hcallback : list.callback.Fits env.source) :
    Yields env (IsCode .client) (g.listBinding marker list) := by
  have hcode : ∀ c e, e.Fits env.source → Yields env (IsCode .client) (g.expr c e) :=
    fun c e he => hclient ▸ h.expr c e he
  unfold Emitters.listBinding
  refine (hcode .reactive list.array harray).bind fun array harray => ?_
  have hcall := @isCode_listCall "_$mapArray" _ _ (isCode_of_callsOnly (by decide)) hmarker harray
  have hkeyedCall := @isCode_listCall "_$mapArrayKeyed" _ _ (isCode_of_callsOnly (by decide))
    hmarker harray
  dsimp only
  generalize "_$mapArray" ++ _ = call at hcall ⊢
  generalize "_$mapArrayKeyed" ++ _ = keyedCall at hkeyedCall ⊢
  split
  · refine (hcode .callback list.callback hcallback).bind fun text htext => .pure ?_
    exact isCode_enclosed hcall htext (by decide)
  · rename_i item hitem
    obtain ⟨hparams, helement⟩ := Expr.layout_itemShape hitem
    obtain ⟨hspelledParams, hspelledElement⟩ := Expr.isSpelled_itemShape hcallback.spelled hitem
    have hparams := hcallback.opened.of_mem (mem_nodes_of_mem_inner hparams)
    have hfits : item.element.Fits env.source :=
      ⟨hcallback.opened.of_mem (mem_nodes_of_mem_inner helement), hspelledElement⟩
    refine (h.itemParams hclient hparams hspelledParams).bind fun params hparams => ?_
    -- However the element is made, its key comes next, and then the statement is put together.
    have hline : ∀ body, IsCode .client body →
        IsCode .client (call ++ (params ++ " => " ++ body) ++ ");") := by
      intro body hbody
      repeat' with_reducible apply isCode_append
      all_goals simp +decide [hcall, hparams, hbody]
    have hkeyedLine : ∀ body key, IsCode .client body → IsCode .client key →
        IsCode .client (keyedCall ++ (params ++ " => " ++ body) ++ ", " ++ params ++ " => " ++ key
          ++ ");") := by
      intro body key hbody hkey
      repeat' with_reducible apply isCode_append
      all_goals simp +decide [hkeyedCall, hparams, hbody, hkey]
    have hkey := h.itemKey? hclient hfits
    split
    · have hcomponent : Yields env (IsClosed .client) (g.component item.element) :=
        hclient ▸ h.component hfits
      refine hcomponent.bind fun body hbody => hkey.bind fun key? hkey? => ?_
      cases key? with
      | none => exact .pure (hline body hbody.isCode)
      | some key => exact .pure (hkeyedLine body key hbody.isCode (hkey? key rfl))
    · split
      · rename_i hstatic
        refine (h.clone hclient hfits hstatic).bind fun template htemplate =>
          (Yields.pure (isCode_append htemplate (isCode_of_lacks (by decide)))).bind
            fun body hbody => hkey.bind fun key? hkey? => ?_
        cases key? with
        | none => exact .pure (hline body hbody)
        | some key => exact .pure (hkeyedLine body key hbody (hkey? key rfl))
      · have hbraces : ∀ text, IsCode .client text →
            IsCode .client ("\x7b\n" ++ text ++ "\x7d") := fun text htext =>
          isCode_enclosed (isCode_of_lacks (by decide)) htext (by decide)
        refine (h.block hclient item.element hfits).bind fun text htext =>
          (Yields.pure (hbraces text htext)).bind fun body hbody => hkey.bind fun key? hkey? => ?_
        cases key? with
        | none => exact .pure (hline body hbody)
        | some key => exact .pure (hkeyedLine body key hbody (hkey? key rfl))

/-- The statement for a value in the content: a list or an insertion. -/
theorem childBinding {marker : String} (hmarker : IsCode .client marker) {part : Part}
    (hvalue : part.value.Fits env.source) :
    Yields env (IsCode .client) (g.childBinding marker part) := by
  obtain ⟨path, place, value⟩ := part
  unfold Emitters.childBinding Emitters.contentBinding
  dsimp only at hvalue ⊢
  split
  · rename_i e
    have he : e.Fits env.source := hvalue
    split
    · rename_i list hlist
      obtain ⟨harray, hcallback⟩ := Expr.layout_listShape hlist
      obtain ⟨hspelledArray, hspelledCallback⟩ := Expr.isSpelled_listShape he.spelled hlist
      exact h.listBinding hclient hmarker
        ⟨he.opened.of_mem (mem_nodes_of_mem_inner harray), hspelledArray⟩
        ⟨he.opened.of_mem (mem_nodes_of_mem_inner hcallback), hspelledCallback⟩
    · exact h.insertion hclient hmarker hvalue
  · exact h.insertion hclient hmarker hvalue

omit h hclient in
/-- The declaration of an element that has bindings. -/
theorem isCode_targetLine (path : List Nat) (index : Nat) :
    IsCode .client (targetLine path index) := by
  have hsteps : IsCode .client (pathSteps path) := by
    refine isCode_join fun step hstep => ?_
    obtain ⟨position, -, rfl⟩ := List.mem_map.1 hstep
    exact isCode_of_lacks (by simp +decide)
  unfold targetLine
  repeat' with_reducible apply isCode_append
  all_goals simp +decide [hsteps]

omit h hclient in
/-- The declaration of a marker. -/
theorem isCode_markerLine (part : Part) (index : Nat) :
    IsCode .client (markerLine part index) := by
  have hid : ∀ id, Lacks '$' id → IsCode .client
      ("const " ++ markerName index ++ " = _$findMarker(_root$, " ++ quote id ++ ");") := by
    intro id hid
    repeat' with_reducible apply isCode_append
    all_goals simp +decide [hid]
  obtain ⟨path, name | marker, value⟩ := part
  · exact hid "" (by decide)
  · exact hid (markerText marker) (lacks_append.2 ⟨by decide, lacks_repr marker⟩)

omit h hclient in
/-- Lines of code make a block. -/
theorem isCode_blockText {lines : List String} (hlines : ∀ line ∈ lines, IsCode .client line) :
    IsCode .client (blockText lines) := by
  refine isCode_join fun text htext => ?_
  obtain ⟨line, hline, rfl⟩ := List.mem_map.1 htext
  have hcode := hlines line hline
  exact isCode_enclosed (isCode_of_lacks (by decide)) hcode (by decide)

/-- A block declares its elements and markers, and then binds them. -/
theorem bindings {template : String} (htemplate : IsCode .client template) {parts : List Part}
    (hparts : ∀ part ∈ parts, part.value.Fits env.source ∧
      ∀ name, part.place = .inTag (some name) → Lacks '$' name) :
    Yields env (IsCode .client) (g.bindings template parts) := by
  have hsettings : Yields env (fun lines => ∀ line ∈ lines, IsCode .client line)
      ((parts.filter Part.isAttribute).mapM fun part =>
        g.attributeBinding (targetOf (targetPaths parts) part.path) part) := by
    refine .mapM fun part hpart => ?_
    obtain ⟨hvalue, hname⟩ := hparts part (List.mem_filter.1 hpart).1
    exact h.attributeBinding hclient (isCode_targetOf _ _) hvalue hname
  have hinsertions : Yields env (fun lines => ∀ line ∈ lines, IsCode .client line)
      ((parts.filter (!·.isAttribute)).zipIdx.mapM fun entry =>
        g.childBinding (markerName entry.2) entry.1) := by
    refine .mapM fun entry hentry => ?_
    have hpart := (List.mem_filter.1 (List.fst_mem_of_mem_zipIdx hentry)).1
    exact h.childBinding hclient (isCode_markerName entry.2) (hparts entry.1 hpart).1
  rw [Emitters.bindings_eq]
  refine hsettings.bind fun settings hsettings => hinsertions.bind fun insertions hinsertions =>
    .pure (isCode_blockText ?_)
  have hclone : IsCode .client ("const _root$ = _$clone(" ++ template ++ ");") :=
    isCode_enclosed (isCode_of_callsOnly (by decide)) htemplate (by decide)
  have hreturn : IsCode .client "return _root$;" := isCode_of_callsOnly (by decide)
  simp only [List.forall_mem_append, List.forall_mem_singleton, List.forall_mem_map]
  exact ⟨⟨⟨⟨⟨hclone, fun entry _ => isCode_targetLine entry.1 entry.2⟩,
    fun entry _ => isCode_markerLine entry.1 entry.2⟩, hsettings⟩, hinsertions⟩, hreturn⟩

/-- The block of an element only calls the helpers of the client. -/
theorem elementBlock {e : Element} (he : e.Fits env.source) :
    Yields env (IsCode .client) (g.elementBlock e) := by
  have htemplate : Yields env (IsCode .client) (internTemplate (e.skeleton 0).templateHtml) :=
    hclient ▸ Yields.intern (e.lacks_templateHtml h.plain he.spelled 0)
  exact htemplate.bind fun template hcode => h.bindings hclient hcode (he.parts h.plain)

end

/-! ### Elements on the server -/

section

variable (hserver : env.options.target = .server)

include hserver

/-- The code of an attribute on the server, if it is written there. -/
theorem serverAttribute? {name : String} (hname : Lacks '$' name) {value : PartValue}
    (hvalue : value.Fits env.source) :
    Yields env (fun text? => ∀ text ∈ text?, IsCode .server text)
      (g.serverAttribute? name value) := by
  have hcode : Yields env (IsCode .server) (g.partValue .plain value) :=
    hserver ▸ h.partValue .plain hvalue
  have hhtml := lacks_quote (lacks_htmlName hname)
  unfold Emitters.serverAttribute?
  split
  · refine hcode.bind fun text htext => .pure fun _ hother => ?_
    obtain rfl := Option.some.inj hother
    exact isCode_enclosed (isCode_of_callsOnly (by decide)) htext (by decide)
  · split
    · exact .pure nofun
    · refine hcode.bind fun text htext => .pure fun _ hother => ?_
      obtain rfl := Option.some.inj hother
      repeat' with_reducible apply isCode_append
      all_goals simp +decide [hhtml, htext]

/-- The code of content on the server, escaped unless it is markup. -/
theorem serverChild {value : PartValue} (hvalue : value.Fits env.source) :
    Yields env (IsCode .server) (g.serverChild value) := by
  have hcode : Yields env (IsCode .server) (g.partValue .plain value) :=
    hserver ▸ h.partValue .plain hvalue
  cases value with
  | expr | spread =>
    refine hcode.bind fun text htext => .pure ?_
    exact isCode_enclosed (isCode_of_callsOnly (by decide)) htext (by decide)
  | markup m => exact hcode

/-- The code that fills a slot on the server. -/
theorem serverValue? {part : Part} (hvalue : part.value.Fits env.source)
    (hname : ∀ name, part.place = .inTag (some name) → Lacks '$' name) :
    Yields env (fun text? => ∀ text ∈ text?, IsCode .server text)
      (g.serverValue? (.slot part)) := by
  rcases part with ⟨path, (_ | name) | marker, value⟩
  · exact h.serverAttribute? hserver (by decide) hvalue
  · exact h.serverAttribute? hserver (hname name rfl) hvalue
  · exact (h.serverChild hserver hvalue).bind fun text htext =>
      .pure fun _ hother => Option.some.inj hother ▸ htext

/-- The code of an element on the server only calls the helpers of the server. -/
theorem serverElement {e : Element} (he : e.Fits env.source) :
    Yields env (IsClosed .server) (g.serverElement e) := by
  have hparts := he.parts h.plain
  have hpieces := e.isPlain_skeleton h.plain he.spelled 0
  have hvalues : ∀ piece ∈ (e.skeleton 0).pieces,
      Yields env (fun text? => ∀ text ∈ text?, IsCode .server text) (g.serverValue? piece) := by
    intro piece hpiece
    rcases piece with text | part
    · exact .pure nofun
    · have hpart := Element.mem_parts_of_slot hpiece
      exact h.serverValue? hserver (hparts part hpart).1 (hparts part hpart).2
  refine (Yields.mapM hvalues).bind fun values hvalues => ?_
  have hchunks : Lacks '$' (quoteArray (chunks ((e.skeleton 0).pieces.zip values))) :=
    lacks_quoteArray (lacks_chunks fun entry hentry => hpieces _ (List.of_mem_zip hentry).1)
  have htemplate : Yields env (IsCode .server)
      (internTemplate (quoteArray (chunks ((e.skeleton 0).pieces.zip values)))) :=
    hserver ▸ Yields.intern hchunks
  refine htemplate.bind fun template hcode => .pure (isClosed_parenthesis ?_)
  have harguments := List.forall_mem_cons.2 ⟨hcode, forall_mem_filterMap hvalues⟩
  exact isCode_append (isCode_of_callsOnly (by decide)) (isCode_joinWith (by decide) harguments)

end

/-! ### Markup -/

/-- The code of an element: a component, a string, a copy or a block. -/
theorem element {e : Element} (he : e.Fits env.source) :
    Yields env (IsClosed env.options.target) (g.element e) := by
  unfold Emitters.element
  split
  · exact h.component he
  · refine .read ?_
    cases htarget : env.options.target with
    | server =>
      rw [if_pos (by rw [CompileOptions.isServer, htarget]; rfl)]
      exact h.serverElement htarget he
    | client =>
      rw [if_neg (by rw [CompileOptions.isServer, htarget]; decide)]
      split
      · rename_i hstatic
        exact (h.clone htarget he hstatic).bind fun template htemplate =>
          .pure (isClosed_parenthesis htemplate)
      · refine (h.elementBlock htarget he).bind fun block hblock => .pure ?_
        refine isClosed_append "\x7d)(" rfl (by decide) ?_
        exact isCode_append (isCode_of_lacks (by decide)) hblock

/-- The code of markup only calls the helpers of the target. -/
theorem markupText {m : Markup} (hm : m.Fits env.source) :
    Yields env (IsClosed env.options.target) (g.markupText m) := by
  cases m with
  | element e => exact h.element ⟨hm.opened, hm.spelled⟩
  | fragment span children => exact h.fragment (allOpened_parts hm.opened) hm.spelled

end Emitters.Lawful

/-! ## The code of a module -/

/-- Emitters for trees up to any depth make code that only calls the helpers of the target. -/
theorem Emitters.below_lawful {env : Env} (hplain : PlainSource env.source) (depth : Nat) :
    (below depth).Lawful env := by
  induction depth with
  | zero =>
    exact ⟨hplain, fun _ _ _ => .throw _, fun _ _ => .throw _, fun _ _ _ => .throw _⟩
  | succ depth ih =>
    exact ⟨hplain, fun c _ he => ih.exprText c he, fun _ hm => ih.markupText hm,
      fun hclient _ he => ih.elementBlock hclient he⟩

/-- The code for pieces of markup in their places only calls the helpers of the target. -/
theorem yields_emitReplacements {env : Env} (hplain : PlainSource env.source)
    {markups : List Markup} (hmarkups : ∀ m ∈ markups, m.Fits env.source) :
    Yields env (fun rs => ∀ r ∈ rs, IsCut env.source r.span.start ∧
      ClosedCode env.options.target r.text) (emitReplacements markups) := by
  refine .mapM fun m hm => ?_
  have hfits := hmarkups m hm
  obtain ⟨before, c, rest, htext, hstart, -⟩ :=
    (hfits.opened _ (mem_nodes_self _)).opens m.isMarkup_layout
  rw [m.span_layout] at hstart
  refine ((Emitters.below_lawful hplain _).markup m hfits).bind fun code hclosed => ?_
  exact .pure ⟨isCut_iff.2 ⟨before, _, htext, hstart⟩, hclosed⟩

end MarkupCompiler
