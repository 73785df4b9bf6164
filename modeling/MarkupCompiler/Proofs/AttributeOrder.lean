import MarkupCompiler.Proofs.TemplateElements
import MarkupCompiler.Proofs.TemplateTree
import MarkupCompiler.Proofs.ValueScope

/-!
# Attributes behind a spread

The attributes of an element take effect in two goes. Those with constant values stand in the
template and are there as soon as it is cloned. The others are bound by statements, one after the
other in the order of the source, and so are the objects that are spread. An attribute written
behind a spread is therefore applied after it exactly if its value is not constant
(`applied_after_spread_iff`). A constant attribute there loses against the object, while a component
with the same attributes gets its properties in order (`constant_behind_spread_loses`).
-/

namespace MarkupCompiler

open Syntax Html.State

/-! ## Pieces behind a spread -/

namespace Syntax

/-- The pieces of an attribute behind a spread stand behind the slot of the spread. -/
theorem Element.exists_pieces_of_spread {e owner : Element} {path : List Nat}
    {before between after : List Attribute} {object : Expr} {a : Attribute}
    (hpath : e.atPath path = some owner)
    (hattributes : owner.attributes = before ++ .spread object :: (between ++ a :: after)) :
    ∃ front middle back, e.pieces [] 0 =
      front ++ .slot ⟨path, .inTag none, .spread object⟩ ::
        (middle ++ (a.pieces path ++ back)) := by
  obtain ⟨start, front, back, hinfix⟩ := Element.exists_pieces_infix_of_atPath hpath [] 0
  obtain ⟨span, tag, attributes, children⟩ := owner
  have hlist : attributes = before ++ .spread object :: (between ++ a :: after) := hattributes
  have hspread : Attribute.pieces path (.spread object) =
      [.slot ⟨path, .inTag none, .spread object⟩] := rfl
  rw [List.nil_append, Element.pieces, hlist] at hinfix
  simp only [List.flatMap_append, List.flatMap_cons, hspread] at hinfix
  refine ⟨front ++ .html ("<" ++ tag.text) :: before.flatMap (Attribute.pieces path),
    between.flatMap (Attribute.pieces path), after.flatMap (Attribute.pieces path) ++
      (.html ">" :: (if isVoidTag tag.text then []
        else childrenPieces path 0 start children ++ [.html ("</" ++ tag.text ++ ">")])) ++ back,
    ?_⟩
  rw [← hinfix]
  simp only [List.append_assoc, List.cons_append, List.nil_append]

/-- The template of an element has the start tag of each element in it, with the constant attributes
of that element. -/
theorem Element.exists_startTag_of_atPath {e owner : Element} {path : List Nat}
    (hpath : e.atPath path = some owner) :
    ∃ front back, (e.skeleton 0).templateHtml.toList =
      front ++ '<' :: (owner.tag.text.toList ++
        ((owner.attributes.filterMap Attribute.constant?).flatMap attributeChars ++
          '>' :: back)) := by
  obtain ⟨start, front, back, hinfix⟩ := Element.exists_pieces_infix_of_atPath hpath [] 0
  obtain ⟨span, tag, attributes, children⟩ := owner
  rw [e.skeleton_templateHtml, ← hinfix, htmlOf_append, htmlOf_append, List.nil_append,
    Element.htmlOf_pieces]
  refine ⟨htmlOf front, (if isVoidTag tag.text then []
    else htmlOf (childrenPieces path 0 start children) ++
      '<' :: '/' :: (tag.text.toList ++ ['>'])) ++ htmlOf back, ?_⟩
  simp only [List.append_assoc, List.cons_append, List.nil_append, Element.tag, Element.attributes]

/-- An attribute that is not ignored is a part exactly if its value is not constant. -/
theorem Attribute.partsOf_pieces_named {name : String} {value : AttributeValue}
    (hused : isIgnored name value = false) (path : List Nat) :
    (∃ constant, value.constant? = some constant ∧
        partsOf (Attribute.pieces path (.named name value)) = []) ∨
      ∃ filling, value.constant? = none ∧
        (Attribute.named name value).filler? = some (some name, filling) ∧
        partsOf (Attribute.pieces path (.named name value)) =
          [⟨path, .inTag (some name), filling⟩] := by
  cases hconstant : value.constant? with
  | some constant =>
    have hstatic : (Attribute.named name value).isStatic = true := by
      rw [Attribute.isStatic, hconstant, Option.isSome_some, Bool.or_true]
    exact .inl ⟨constant, rfl, Attribute.partsOf_pieces_of_isStatic path _ hstatic⟩
  | none =>
    have hstatic : (Attribute.named name value).isStatic = false := by
      rw [Attribute.isStatic, hused, hconstant]
      rfl
    obtain ⟨place, filling, hfiller, hparts⟩ :=
      Attribute.partsOf_pieces_of_not_isStatic path hstatic
    have hplace : place = some name := by
      cases value <;> cases hfiller <;> rfl
    rw [hplace] at hfiller hparts
    exact .inr ⟨filling, rfl, hfiller, hparts⟩

end Syntax

/-! ## Statements that apply attributes -/

/-- A statement spreads an object over the element in a variable. -/
def SpreadLine (env : Env) (target : String) (object : Expr) (line : String) : Prop :=
  ∃ code, CodeOf env (.spread object) code ∧
    line = "_$effect(() => _$spread(" ++ target ++ ", " ++ code ++ "));"

/-- A statement applies an attribute to the element in a variable: it delegates the event that the
name stands for, or sets the property with that name. -/
def AttributeLine (env : Env) (target name : String) (value : PartValue) (line : String) : Prop :=
  ∃ code, CodeOf env value code ∧
    line = match eventName? name with
      | some event => "_$delegate(" ++ target ++ ", " ++ Text.quote event ++ ", " ++ code ++ ");"
      | none =>
        "_$effect(() => _$setProp(" ++ target ++ ", " ++ Text.quote name ++ ", " ++ code ++ "));"

section

variable {env : Env} {table table' : TemplateTable} {target line : String} {path : List Nat}

/-- The statement of a spread spreads its object. -/
theorem spreadLine_of_attributeBinding {object : Expr}
    (h : (emitters.attributeBinding target ⟨path, .inTag none, .spread object⟩).runFrom env table =
      (.ok line, table')) :
    SpreadLine env target object line := by
  obtain ⟨code, hcode, rfl⟩ := Emit.runFrom_bind_pure_eq_ok.1 h
  exact ⟨code, ⟨.plain, table, _, hcode⟩, rfl⟩

/-- The statement of a named attribute applies it. -/
theorem attributeLine_of_attributeBinding {name : String} {value : AttributeValue}
    {filling : PartValue}
    (hfiller : (Attribute.named name value).filler? = some (some name, filling))
    (h : (emitters.attributeBinding target ⟨path, .inTag (some name), filling⟩).runFrom env table =
      (.ok line, table')) :
    AttributeLine env target name filling line := by
  have hspread : ∀ object, filling ≠ .spread object := by
    rintro object rfl
    cases value <;> cases hfiller
  unfold Emitters.attributeBinding Emitters.setting at h
  unfold AttributeLine
  dsimp only [Part.point, BindingPoint.name, Option.getD] at h
  split at h
  · exact absurd rfl (hspread _)
  · cases hevent : eventName? name with
    | some event =>
      rw [hevent] at h
      obtain ⟨code, hcode, rfl⟩ := Emit.runFrom_bind_pure_eq_ok.1 h
      exact ⟨code, ⟨.event, table, _, hcode⟩, rfl⟩
    | none =>
      rw [hevent] at h
      obtain ⟨code, hcode, rfl⟩ := Emit.runFrom_bind_pure_eq_ok.1 h
      exact ⟨code, ⟨.plain, table, _, hcode⟩, rfl⟩

end

/-! ## Order -/

/-- An attribute written behind a spread, on an element of HTML on the client. The template has the
constant attributes in the start tag, and the code clones it before anything is bound. The part of
the spread and its statement come before those of the attribute. If its value is not constant, the
attribute is a part and has one statement, which applies it after the spread, and if its value is
constant, the attribute has neither. -/
theorem applied_after_spread_iff (e owner : Element) (path : List Nat)
    (before between after : List Attribute) (object : Expr) (name : String) (value : AttributeValue)
    (env : Env) (table table' : TemplateTable) (code : String)
    (hcomponent : e.isComponent = false) (hpath : e.atPath path = some owner)
    (hattributes : owner.attributes =
      before ++ .spread object :: (between ++ .named name value :: after))
    (hused : isIgnored name value = false) (hclient : env.options.isServer = false)
    (hrun : (emitMarkup (.element e)).runFrom env table = (.ok code, table')) :
    ∃ front middle back settings₁ spread settings₂ own settings₃ insertions,
      (∃ head tail, (e.skeleton 0).templateHtml.toList =
        head ++ '<' :: (owner.tag.text.toList ++
          ((owner.attributes.filterMap Attribute.constant?).flatMap attributeChars ++
            '>' :: tail))) ∧
      (e.skeleton 0).parts = front ++ ⟨path, .inTag none, .spread object⟩ ::
        (middle ++ (partsOf (Attribute.pieces path (.named name value)) ++ back)) ∧
      code = "(() => \x7b\n" ++ Emitters.blockText (Emitters.blockLines
        (table.intern (e.skeleton 0).templateHtml).1 (e.skeleton 0).parts
        (settings₁ ++ spread :: (settings₂ ++ (own ++ settings₃))) insertions) ++ "\x7d)()" ∧
      SpreadLine env (Emitters.targetOf (Emitters.targetPaths (e.skeleton 0).parts) path) object
        spread ∧
      (value.constant? = none ↔ ∃ line filling, own = [line] ∧
        (Attribute.named name value).filler? = some (some name, filling) ∧
        partsOf (Attribute.pieces path (.named name value)) =
          [⟨path, .inTag (some name), filling⟩] ∧
        AttributeLine env (Emitters.targetOf (Emitters.targetPaths (e.skeleton 0).parts) path) name
          filling line) ∧
      ((∃ constant, value.constant? = some constant) ↔
        own = [] ∧ partsOf (Attribute.pieces path (.named name value)) = []) := by
  obtain ⟨front, middle, back, hpieces⟩ := Element.exists_pieces_of_spread hpath hattributes
  have hparts : (e.skeleton 0).parts =
      partsOf front ++ ⟨path, .inTag none, .spread object⟩ ::
        (partsOf middle ++
          (partsOf (Attribute.pieces path (.named name value)) ++ partsOf back)) := by
    rw [e.skeleton_parts, hpieces]
    simp only [partsOf_append, partsOf_slot]
  have hmem : ⟨path, .inTag none, .spread object⟩ ∈ (e.skeleton 0).parts := by
    rw [hparts]
    exact List.mem_append_right _ (.head _)
  have hstatic := Element.isStatic_eq_false_of_mem hmem
  obtain ⟨all, insertions, table₁, hcode, hsettings⟩ :=
    exists_blockLines hcomponent hstatic hclient hrun
  generalize Emitters.targetPaths (e.skeleton 0).parts = paths at hsettings ⊢
  have hspread : Part.isAttribute ⟨path, .inTag none, .spread object⟩ = true := rfl
  -- The attributes are bound in the order of the parts, so the statements split where the parts do.
  rw [hparts, List.filter_append, List.filter_cons_of_pos hspread, List.filter_append,
    List.filter_append] at hsettings
  obtain ⟨settings₁, rest, table₂, -, hrest, hall⟩ := Emit.runFrom_mapM_append_eq_ok.1 hsettings
  obtain ⟨spread, rest₂, table₃, hspreadRun, hrest₂, hrestEq⟩ :=
    Emit.runFrom_mapM_cons_eq_ok.1 hrest
  obtain ⟨settings₂, rest₃, table₄, -, hrest₃, hrestEq'⟩ :=
    Emit.runFrom_mapM_append_eq_ok.1 hrest₂
  obtain ⟨own, settings₃, table₅, hown, -, hrestEq''⟩ := Emit.runFrom_mapM_append_eq_ok.1 hrest₃
  refine ⟨partsOf front, partsOf middle, partsOf back, settings₁, spread, settings₂, own, settings₃,
    insertions, Element.exists_startTag_of_atPath hpath, hparts, ?_,
    spreadLine_of_attributeBinding hspreadRun, ?_⟩
  · rw [hcode, hall, hrestEq, hrestEq', hrestEq'']
  · rcases Attribute.partsOf_pieces_named hused path with
      ⟨constant, hconstant, hnone⟩ | ⟨filling, hconstant, hfiller, hone⟩
    · rw [hnone] at hown
      cases hown
      simp [hconstant, hnone]
    · rw [hone] at hown
      obtain ⟨line, rest₁, table₆, hline, hnil, rfl⟩ := Emit.runFrom_mapM_cons_eq_ok.1 hown
      cases hnil
      have happlies := attributeLine_of_attributeBinding hfiller hline
      refine ⟨⟨fun _ => ⟨line, filling, rfl, hfiller, hone, happlies⟩, fun _ => hconstant⟩, ?_⟩
      simp [hconstant, hone]

/-- The element `<p {...a} id="x" title={t}/>`. -/
def spreadParagraph : Element :=
  .mk ⟨0, 29⟩ (.plain "p")
    [.spread (.ident ⟨7, 8⟩ "a"), .named "id" (.text "x"),
      .named "title" (.expr (.ident ⟨25, 26⟩ "t"))] []

/-- The title of the paragraph is applied after the spread. -/
theorem applied_after_spread_iff_title :
    ∃ settings₁ spread settings₂ line settings₃ insertions,
      ((emitMarkup (.element spreadParagraph)).runFrom ⟨[], {}⟩ {}).1 =
        .ok ("(() => \x7b\n" ++ Emitters.blockText (Emitters.blockLines "_tmpl$0"
          (spreadParagraph.skeleton 0).parts
          (settings₁ ++ spread :: (settings₂ ++ ([line] ++ settings₃))) insertions) ++ "\x7d)()") ∧
      SpreadLine ⟨[], {}⟩ "_root$" (.ident ⟨7, 8⟩ "a") spread ∧
      AttributeLine ⟨[], {}⟩ "_root$" "title" (.expr (.ident ⟨25, 26⟩ "t")) line := by
  obtain ⟨code, table', hrun⟩ : ∃ code table',
      (emitMarkup (.element spreadParagraph)).runFrom ⟨[], {}⟩ {} = (.ok code, table') :=
    ⟨_, _, rfl⟩
  obtain ⟨_, _, _, settings₁, spread, settings₂, own, settings₃, insertions, -, -, hcode, hspread,
    happlied, -⟩ := applied_after_spread_iff spreadParagraph spreadParagraph [] []
      [.named "id" (.text "x")] [] (.ident ⟨7, 8⟩ "a") "title" (.expr (.ident ⟨25, 26⟩ "t"))
      ⟨[], {}⟩ {} table' code (by decide) rfl rfl (by decide) (by decide) hrun
  obtain ⟨line, filling, rfl, hfiller, -, hline⟩ := happlied.1 rfl
  cases hfiller
  refine ⟨settings₁, spread, settings₂, line, settings₃, insertions, ?_, hspread, hline⟩
  rw [hrun, hcode]
  rfl

/-! ## A constant attribute that loses -/

/-- A paragraph with a constant attribute behind a spread. -/
def overriddenSource : String := "<p \x7b...a\x7d id=\"x\"/>"

/-- The code of the paragraph: the attribute stands in the template, and the object is spread over
the clone. -/
def overriddenCode : String :=
  "import \x7b template as _$template, clone as _$clone, effect as _$effect, " ++
  "spread as _$spread \x7d from \"sprig/dom\";\n" ++
  "const _tmpl$0 = _$template(\"<p id=\\\"x\\\"></p>\");\n" ++
  "(() => \x7b\n  const _root$ = _$clone(_tmpl$0);\n" ++
  "  _$effect(() => _$spread(_root$, a));\n  return _root$;\n\x7d)()"

/-- A component with the same attributes. -/
def mergedSource : String := "<Card \x7b...a\x7d id=\"x\"/>"

/-- The code of the component: the attribute comes last. -/
def mergedCode : String :=
  "import \x7b unwrapProps as _$unwrapProps, unwrapComponent as _$unwrapComponent \x7d " ++
  "from \"sprig/dom\";\n" ++
  "_$unwrapComponent(Card(_$unwrapProps(Object.assign(\x7b\x7d, a, \x7b id: \"x\" \x7d))))"

/-- A constant attribute behind a spread stands in the template of an element, where the object is
spread over it, while a component gets it after the object. -/
theorem constant_behind_spread_loses :
    compile overriddenSource "a.jsx" {} = .ok (some overriddenCode) ∧
      compile mergedSource "a.jsx" {} = .ok (some mergedCode) :=
  ⟨eq_ok_of_toOption (by decide +kernel), eq_ok_of_toOption (by decide +kernel)⟩

end MarkupCompiler
