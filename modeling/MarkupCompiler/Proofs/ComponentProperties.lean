import MarkupCompiler.Proofs.Agreement
import MarkupCompiler.Proofs.Rewriting

/-!
# The properties that a component is handed

A component is called with one object. Neighbouring attributes are entries of one object literal,
and objects that are spread stand between such literals, as arguments of `Object.assign`
(`PropertyObject`). From left to right these are the attributes in their order, and then the
children (`properties_handed_in_order`).

The value of an entry is the code of an expression, and so is an object that is spread. If that
expression is a list of expressions with commas between them, as braces allow, its code has these
commas too, and no parentheses are put around it. The entry `x: a, b` is then read as two entries
(`comma_value_is_two_entries`).
-/

namespace MarkupCompiler

open Syntax Grammar Text

/-! ## Expressions with commas -/

namespace Syntax

/-- The expressions that stand with commas between them where an expression is written: more than
one only if the expression is a comma expression that is not in parentheses. -/
def Expr.listed : Expr → List Expr
  | .sequence _ (first :: second :: rest) => first :: second :: rest
  | e => [e]

/-- How many expressions stand with commas between them where the value of an attribute is
written. -/
def AttributeValue.places : AttributeValue → Nat
  | .expr e => e.listed.length
  | _ => 1

/-- How many expressions stand with commas between them where an attribute is written. -/
def Attribute.places : Attribute → Nat
  | .spread e => e.listed.length
  | .named _ value => value.places

/-- How many expressions stand with commas between them where a child is written. -/
def Child.places : Child → Nat
  | .expr e => e.listed.length
  | _ => 1

/-- Whether an attribute is handed over: it is no key, and it does not have empty braces. -/
def Attribute.isHanded : Attribute → Bool
  | .spread _ => true
  | .named name value => !isIgnored name value

/-- Whether an attribute spreads an object. -/
def Attribute.isSpread : Attribute → Bool
  | .spread _ => true
  | .named _ _ => false

end Syntax

section

variable {env : Env} {table table' : TemplateTable}

variable {code : String}

/-- The code of an expression consists of as many texts as it lists expressions, with commas between
them. -/
theorem exists_texts_of_emitExpr {context : Context} {e : Expr}
    (h : (emitExpr context e).runFrom env table = (.ok code, table')) :
    ∃ texts, code = joinWith ", " texts ∧ texts.length = e.listed.length := by
  fun_cases Expr.listed e with
  | case1 span first second rest =>
    rw [emitExpr_eq] at h
    obtain ⟨texts, htexts, rfl⟩ := Emit.runFrom_bind_pure_eq_ok.1 h
    exact ⟨texts, rfl, (Emit.forall₂_of_runFrom_mapM htexts).length_eq.symm⟩
  | case2 => exact ⟨[code], rfl, rfl⟩

/-- An expression lists at least one. -/
theorem Syntax.Expr.listed_ne_nil (e : Expr) : e.listed ≠ [] := by
  fun_cases Expr.listed e with
  | case1 span first second rest => exact List.cons_ne_nil _ _
  | case2 => exact List.cons_ne_nil _ _

/-- What stands before a list of texts stands before the first of them. -/
theorem exists_append_joinWith (front : String) {texts : List String} (h : texts ≠ []) :
    ∃ texts', front ++ joinWith ", " texts = joinWith ", " texts' ∧
      texts'.length = texts.length := by
  obtain ⟨first, rest, rfl⟩ := List.exists_cons_of_ne_nil h
  refine ⟨(front ++ first) :: rest, ?_, rfl⟩
  cases rest with
  | nil => rfl
  | cons second rest =>
    show front ++ (first ++ ", " ++ joinWith ", " (second :: rest)) =
      front ++ first ++ ", " ++ joinWith ", " (second :: rest)
    simp only [String.append_assoc]

/-- The condition of a component consists of as many texts as it lists expressions: an arrow stands
before the first of them. -/
theorem exists_texts_of_condition {e : Expr}
    (h : (emitters.condition e).runFrom env table = (.ok code, table')) :
    ∃ texts, code = joinWith ", " texts ∧ texts.length = e.listed.length := by
  unfold Emitters.condition at h
  split at h
  · exact exists_texts_of_emitExpr h
  · obtain ⟨body, hbody, rfl⟩ := Emit.runFrom_bind_pure_eq_ok.1 h
    obtain ⟨texts, rfl, hlength⟩ := exists_texts_of_emitExpr hbody
    have hne : texts ≠ [] := by
      rintro rfl
      exact e.listed_ne_nil (List.length_eq_zero_iff.1 hlength.symm)
    obtain ⟨texts', hjoin, hsame⟩ := exists_append_joinWith "() => " hne
    exact ⟨texts', hjoin, hsame.trans hlength⟩

/-- The value of a property consists of as many texts as it has places. -/
theorem exists_texts_of_propertyValue {component name code : String} {value : AttributeValue}
    (h : (emitters.propertyValue component name value).runFrom env table = (.ok code, table')) :
    ∃ texts, code = joinWith ", " texts ∧ texts.length = value.places := by
  cases value with
  | expr e =>
    obtain ⟨env', table₁, -, h⟩ := Emit.runFrom_bind_eq_ok.1 h
    dsimp only at h
    split at h
    · exact exists_texts_of_condition h
    · split at h
      · exact exists_texts_of_emitExpr h
      · exact exists_texts_of_emitExpr h
  | _ => exact ⟨[code], rfl, rfl⟩

/-- A child as a value consists of as many texts as it has places. -/
theorem exists_texts_of_childValue? {child : Child} (hspread : Emitters.isSpreadChild child = false)
    (h : (emitters.childValue? child).runFrom env table = (.ok (some code), table')) :
    ∃ texts, code = joinWith ", " texts ∧ texts.length = child.places := by
  cases child with
  | expr e =>
    obtain ⟨text, htext, ⟨⟩⟩ := Emit.runFrom_bind_pure_eq_ok.1 h
    exact exists_texts_of_emitExpr htext
  | spread e => cases hspread
  | _ => exact ⟨[code], rfl, rfl⟩

end

/-! ## One object -/

/-- A property: its key, and its value as the texts that stand with commas between them. -/
structure PropertyEntry where
  key : String
  texts : List String

/-- How a property is written. -/
def PropertyEntry.text (entry : PropertyEntry) : String :=
  entry.key ++ ": " ++ joinWith ", " entry.texts

/-- What a component is handed: a property, or all properties of an object. -/
inductive Handed where
  | entry (entry : PropertyEntry)
  | object (texts : List String)

/-- The texts of a value that is handed over. -/
def Handed.texts : Handed → List String
  | entry e => e.texts
  | object texts => texts

/-- What is handed over, as it is added to the properties. -/
def Handed.addition : Handed → Emitters.Addition
  | entry e => .entry e.text
  | object texts => .object (joinWith ", " texts)

/-- An argument of `Object.assign`: an object literal that is not empty, or an object. -/
inductive PropertySource where
  | literal (entries : List PropertyEntry) (nonempty : entries ≠ [])
  | object (texts : List String)

namespace PropertySource

/-- How an argument of `Object.assign` is written. -/
def text : PropertySource → String
  | literal entries _ => Emitters.braced (entries.map PropertyEntry.text)
  | object texts => joinWith ", " texts

/-- What an argument of `Object.assign` hands over. -/
def handed : PropertySource → List Handed
  | literal entries _ => entries.map .entry
  | object texts => [.object texts]

end PropertySource

/-- The properties of a component: one object literal, or several objects that are merged. -/
inductive PropertyObject where
  | literal (entries : List PropertyEntry)
  | merged (sources : List PropertySource)

namespace PropertyObject

/-- How the properties of a component are written. -/
def text : PropertyObject → String
  | literal entries => Emitters.braced (entries.map PropertyEntry.text)
  | merged sources =>
    "Object.assign(\x7b\x7d, " ++ joinWith ", " (sources.map PropertySource.text) ++ ")"

/-- What the properties of a component hand over, from left to right. -/
def handed : PropertyObject → List Handed
  | literal entries => entries.map .entry
  | merged sources => sources.flatMap PropertySource.handed

/-- Whether several objects are merged. -/
def isMerged : PropertyObject → Bool
  | literal _ => false
  | merged _ => true

end PropertyObject

namespace Emitters

/-- Entries at the end are one object. -/
theorem gather_of_ne_nil {entries : List String} (h : entries ≠ []) :
    gather entries [] = [braced entries.reverse] := by
  cases entries with
  | nil => exact absurd rfl h
  | cons entry entries => rfl

/-- Entries before an object are one object. -/
theorem gather_object_of_ne_nil {entries : List String} (h : entries ≠ []) (text : String)
    (rest : List Addition) :
    gather entries (.object text :: rest) =
      braced entries.reverse :: text :: gather [] rest := by
  cases entries with
  | nil => exact absurd rfl h
  | cons entry entries => rfl

/-- What is handed over is gathered into arguments of `Object.assign`, none of them empty, which
hand over the same from left to right. -/
theorem exists_sources_of_gather (before : List PropertyEntry) (handed : List Handed) :
    ∃ sources : List PropertySource,
      gather (before.map PropertyEntry.text).reverse (handed.map Handed.addition) =
        sources.map PropertySource.text ∧
      sources.flatMap PropertySource.handed = before.map .entry ++ handed := by
  -- The induction carries the entries since the last object, which are still to be put in braces.
  have hpending : ∀ before : List PropertyEntry, before ≠ [] →
      (before.map PropertyEntry.text).reverse ≠ [] := fun before hne hnil =>
    hne (List.map_eq_nil_iff.1 (List.reverse_eq_nil_iff.1 hnil))
  induction handed generalizing before with
  | nil =>
    by_cases hnone : before = []
    · subst hnone
      exact ⟨[], rfl, rfl⟩
    · refine ⟨[.literal before hnone], ?_, ?_⟩
      · rw [List.map_nil, gather_of_ne_nil (hpending before hnone), List.reverse_reverse]
        rfl
      · rw [List.flatMap_singleton, List.append_nil]
        rfl
  | cons item handed ih =>
    cases item with
    | entry e =>
      obtain ⟨sources, htext, hsources⟩ := ih (before ++ [e])
      refine ⟨sources, ?_, ?_⟩
      · rw [← htext, List.map_append, List.reverse_append, List.map_cons, Handed.addition, gather]
        rfl
      · rw [hsources, List.map_append, List.append_assoc]
        rfl
    | object texts =>
      obtain ⟨sources, htext, hsources⟩ := ih []
      by_cases hnone : before = []
      · subst hnone
        refine ⟨.object texts :: sources, ?_, ?_⟩
        · rw [List.map_cons, List.map_cons, ← htext]
          rfl
        · rw [List.flatMap_cons, hsources]
          rfl
      · refine ⟨.literal before hnone :: .object texts :: sources, ?_, ?_⟩
        · rw [List.map_cons, Handed.addition, gather_object_of_ne_nil (hpending before hnone),
            List.reverse_reverse, List.map_cons, List.map_cons, ← htext]
          rfl
        · rw [List.flatMap_cons, List.flatMap_cons, hsources]
          rfl

/-- Entries alone are one object, unless there is none. -/
theorem gather_entries (before texts : List String) :
    gather before (texts.map .entry) =
      if before = [] ∧ texts = [] then [] else [braced (before.reverse ++ texts)] := by
  induction texts generalizing before with
  | nil =>
    cases before with
    | nil => rfl
    | cons entry before => simp [gather]
  | cons text texts ih =>
    rw [List.map_cons, gather, ih (text :: before)]
    simp

/-- Nothing but properties is handed over if no addition is an object. -/
theorem exists_entries_of_not_isObject {handed : List Handed}
    (h : (handed.map Handed.addition).any Addition.isObject = false) :
    ∃ entries : List PropertyEntry, handed = entries.map .entry := by
  induction handed with
  | nil => exact ⟨[], rfl⟩
  | cons item handed ih =>
    rw [List.map_cons, List.any_cons, Bool.or_eq_false_iff] at h
    obtain ⟨entries, rfl⟩ := ih h.2
    cases item with
    | entry e => exact ⟨e :: entries, rfl⟩
    | object texts => cases h.1

/-- What is handed over is written as one object, which is merged from several exactly if an object
is among them. -/
theorem exists_object_of_properties (handed : List Handed) :
    ∃ object : PropertyObject, properties (handed.map Handed.addition) = object.text ∧
      object.handed = handed ∧
      object.isMerged = (handed.map Handed.addition).any Addition.isObject := by
  unfold properties
  cases hany : (handed.map Handed.addition).any Addition.isObject with
  | true =>
    obtain ⟨sources, htext, hsources⟩ := exists_sources_of_gather [] handed
    refine ⟨.merged sources, ?_, hsources, rfl⟩
    have hgather : gather [] (handed.map Handed.addition) = sources.map PropertySource.text := htext
    rw [if_pos rfl, hgather]
    rfl
  | false =>
    obtain ⟨entries, rfl⟩ := exists_entries_of_not_isObject hany
    refine ⟨.literal entries, ?_, rfl, rfl⟩
    have hadditions : (entries.map Handed.entry).map Handed.addition =
        (entries.map PropertyEntry.text).map Addition.entry := by
      rw [List.map_map, List.map_map]
      rfl
    rw [if_neg Bool.false_ne_true, hadditions, gather_entries]
    cases entries with
    | nil => rfl
    | cons entry entries => rfl

end Emitters

/-! ## Attributes and children in turn -/

/-- What attributes hand over, each from the table that those before it have left. A key and an
attribute with empty braces hand over nothing, a spread hands over its object, and any other
attribute an entry with its name for a key. -/
inductive HandedInTurn (env : Env) (component : String) :
    TemplateTable → List Attribute → List Handed → TemplateTable → Prop
  | done (table : TemplateTable) : HandedInTurn env component table [] [] table
  | ignored {name : String} {value : AttributeValue} {attributes : List Attribute}
      {handed : List Handed} {table table' : TemplateTable} (hignored : isIgnored name value = true)
      (hrest : HandedInTurn env component table attributes handed table') :
      HandedInTurn env component table (.named name value :: attributes) handed table'
  | entry {name : String} {value : AttributeValue} {attributes : List Attribute}
      {texts : List String} {handed : List Handed} {table table₁ table' : TemplateTable}
      (hused : isIgnored name value = false)
      (hvalue : (emitters.propertyValue component name value).runFrom env table =
        (.ok (joinWith ", " texts), table₁))
      (hplaces : texts.length = value.places)
      (hrest : HandedInTurn env component table₁ attributes handed table') :
      HandedInTurn env component table (.named name value :: attributes)
        (.entry ⟨quoteUnless isName name, texts⟩ :: handed) table'
  | object {object : Expr} {attributes : List Attribute} {texts : List String}
      {handed : List Handed} {table table₁ table' : TemplateTable}
      (hobject : (emitExpr .plain object).runFrom env table = (.ok (joinWith ", " texts), table₁))
      (hplaces : texts.length = object.listed.length)
      (hrest : HandedInTurn env component table₁ attributes handed table') :
      HandedInTurn env component table (.spread object :: attributes) (.object texts :: handed)
        table'

/-- What children hand over: nothing if none of them has a value, the value if there is one and no
child is a spread, and the array of all values otherwise. -/
inductive ChildrenHanded (env : Env) (children : List Child) (table : TemplateTable) :
    List Handed → TemplateTable → Prop
  | none {table' : TemplateTable}
      (hvalues : (emitters.childValues children).runFrom env table = (.ok [], table')) :
      ChildrenHanded env children table [] table'
  | single {child : Child} {texts : List String} {table₁ table₂ table' : TemplateTable}
      (hvalues : (emitters.childValues children).runFrom env table =
        (.ok [joinWith ", " texts], table'))
      (hspread : children.any Emitters.isSpreadChild = false) (hchild : child ∈ children)
      (hvalue : (emitters.childValue? child).runFrom env table₁ =
        (.ok (some (joinWith ", " texts)), table₂))
      (hplaces : texts.length = child.places) :
      ChildrenHanded env children table [.entry ⟨"children", texts⟩] table'
  | array {values : List String} {table' : TemplateTable}
      (hvalues : (emitters.childValues children).runFrom env table = (.ok values, table'))
      (hseveral : 1 < values.length ∨
        values.length = 1 ∧ children.any Emitters.isSpreadChild = true) :
      ChildrenHanded env children table
        [.entry ⟨"children", ["[" ++ joinWith ", " values ++ "]"]⟩] table'

section

variable {env : Env} {component : String} {table table' : TemplateTable}

variable {attributes : List Attribute} {handed : List Handed} {children : List Child}

/-- What attributes add to the properties is what they hand over in turn. -/
theorem exists_handedInTurn {additions : List (Option Emitters.Addition)}
    (h : (attributes.mapM (emitters.addition? component)).runFrom env table =
      (.ok additions, table')) :
    ∃ handed, HandedInTurn env component table attributes handed table' ∧
      additions.filterMap id = handed.map Handed.addition := by
  induction attributes generalizing additions table with
  | nil =>
    cases h
    exact ⟨[], .done _, rfl⟩
  | cons a attributes ih =>
    obtain ⟨first, rest, table₁, hfirst, hrest, rfl⟩ := Emit.runFrom_mapM_cons_eq_ok.1 h
    obtain ⟨handed, hhanded, hadditions⟩ := ih hrest
    cases a with
    | spread object =>
      obtain ⟨code, hcode, rfl⟩ := Emit.runFrom_bind_pure_eq_ok.1 hfirst
      obtain ⟨texts, rfl, hplaces⟩ := exists_texts_of_emitExpr hcode
      refine ⟨.object texts :: handed, .object hcode hplaces hhanded, ?_⟩
      rw [List.filterMap_cons, hadditions]
      rfl
    | named name value =>
      rw [Emitters.addition?] at hfirst
      -- An attribute that is ignored adds nothing, and leaves the table as it was.
      cases hignored : isIgnored name value with
      | true =>
        rw [if_pos hignored] at hfirst
        cases hfirst
        exact ⟨handed, .ignored hignored hhanded, hadditions⟩
      | false =>
        rw [if_neg (by rw [hignored]; exact Bool.false_ne_true)] at hfirst
        obtain ⟨code, hcode, rfl⟩ := Emit.runFrom_bind_pure_eq_ok.1 hfirst
        obtain ⟨texts, rfl, hplaces⟩ := exists_texts_of_propertyValue hcode
        refine ⟨.entry ⟨quoteUnless isName name, texts⟩ :: handed,
          .entry hignored hcode hplaces hhanded, ?_⟩
        rw [List.filterMap_cons, hadditions]
        rfl

/-- Whatever attributes hand over has as many texts as the attribute has places. So each is one text
exactly if no attribute lists several expressions. -/
theorem HandedInTurn.length_texts_iff
    (h : HandedInTurn env component table attributes handed table') :
    (∀ item ∈ handed, item.texts.length = 1) ↔
      ∀ a ∈ attributes, a.isHanded = true → a.places = 1 := by
  induction h with
  | done => exact ⟨fun _ => List.forall_mem_nil _, fun _ => List.forall_mem_nil _⟩
  | ignored hignored _ ih =>
    rw [List.forall_mem_cons, ih]
    refine ⟨fun h => ⟨fun hhanded => ?_, h⟩, fun h => h.2⟩
    rw [Attribute.isHanded, hignored] at hhanded
    cases hhanded
  | entry hused _ hplaces _ ih =>
    have hhanded : Attribute.isHanded (.named _ _) = true := congrArg not hused
    rw [List.forall_mem_cons, List.forall_mem_cons, ih, Handed.texts, hplaces]
    exact and_congr_left' ⟨fun h _ => h, fun h => h hhanded⟩
  | object _ hplaces _ ih =>
    rw [List.forall_mem_cons, List.forall_mem_cons, ih, Handed.texts, hplaces]
    exact and_congr_left' ⟨fun h _ => h, fun h => h rfl⟩

/-- An object is handed over exactly if an attribute is a spread. -/
theorem HandedInTurn.any_isObject (h : HandedInTurn env component table attributes handed table') :
    (handed.map Handed.addition).any Emitters.Addition.isObject =
      attributes.any Attribute.isSpread := by
  induction h with
  | done => rfl
  | ignored _ _ ih =>
    rw [List.any_cons, ih]
    rfl
  | entry _ _ _ _ ih =>
    rw [List.map_cons, List.any_cons, List.any_cons, ih]
    rfl
  | object _ _ _ ih => rfl

/-- The one value of children without a spread is that of one of them. -/
theorem exists_texts_of_childValues {value : String}
    (hspread : children.any Emitters.isSpreadChild = false)
    (h : (emitters.childValues children).runFrom env table = (.ok [value], table')) :
    ∃ child ∈ children, ∃ texts table₁ table₂, value = joinWith ", " texts ∧
      (emitters.childValue? child).runFrom env table₁ = (.ok (some value), table₂) ∧
      texts.length = child.places := by
  obtain ⟨values, table₁, hvalues, hfiltered⟩ := Emit.runFrom_bind_eq_ok.1 h
  have hvalue : some value ∈ values := by
    have hlist : values.filterMap id = [value] := Except.ok.inj (congrArg Prod.fst hfiltered)
    have hmem : value ∈ values.filterMap id := hlist ▸ List.mem_singleton_self value
    obtain ⟨entry, hentry, heq⟩ := List.mem_filterMap.1 hmem
    exact heq ▸ hentry
  obtain ⟨child, hchild, table₂, table₃, hrun⟩ :=
    Emit.exists_of_forall₂ (Emit.forall₂_of_runFrom_mapM hvalues) _ hvalue
  have hnot : Emitters.isSpreadChild child = false :=
    Bool.eq_false_iff.2 fun htrue => by
      rw [List.any_eq_false] at hspread
      exact hspread child hchild htrue
  obtain ⟨texts, htexts, hplaces⟩ := exists_texts_of_childValue? hnot hrun
  exact ⟨child, hchild, texts, table₂, table₃, htexts, hrun, hplaces⟩

/-- What children add to the properties is what they hand over. -/
theorem exists_childrenHanded {addition? : Option Emitters.Addition}
    (h : (emitters.childrenAddition? children).runFrom env table = (.ok addition?, table')) :
    ∃ handed, ChildrenHanded env children table handed table' ∧
      addition?.toList = handed.map Handed.addition := by
  obtain ⟨values, table₁, hvalues, h⟩ := Emit.runFrom_bind_eq_ok.1 h
  match values with
  | [] =>
    cases h
    exact ⟨[], .none hvalues, rfl⟩
  | [value] =>
    cases h
    cases hspread : children.any Emitters.isSpreadChild with
    | true => exact ⟨_, .array hvalues (.inr ⟨rfl, hspread⟩), rfl⟩
    | false =>
      obtain ⟨child, hchild, texts, table₂, table₃, rfl, hrun, hplaces⟩ :=
        exists_texts_of_childValues hspread hvalues
      exact ⟨_, .single hvalues hspread hchild hrun hplaces, rfl⟩
  | first :: second :: rest =>
    cases h
    exact ⟨_, .array hvalues (.inl (Nat.le_add_left 2 _)), rfl⟩

/-- Children hand over no object. -/
theorem ChildrenHanded.any_isObject (h : ChildrenHanded env children table handed table') :
    (handed.map Handed.addition).any Emitters.Addition.isObject = false := by
  cases h with
  | none => rfl
  | single => rfl
  | array => rfl

end

/-! ## The call of a component -/

/-- The properties of a component are one object, which hands over the attributes in their order and
then the children. It is merged from several objects exactly if an attribute is a spread, and none
of these is an empty literal. Each attribute is one text in it exactly if no attribute that is
handed over lists several expressions with commas between them. -/
theorem properties_handed_in_order (e : Element) (env : Env) (table table' : TemplateTable)
    (code : String) (hcomponent : e.isComponent = true)
    (hrun : (emitMarkup (.element e)).runFrom env table = (.ok code, table')) :
    ∃ (object : PropertyObject) (attributes children : List Handed) (table₁ : TemplateTable),
      code = "_$unwrapComponent(" ++ e.tag.text ++ "(_$unwrapProps(" ++ object.text ++ ")))" ∧
      object.handed = attributes ++ children ∧
      HandedInTurn env e.tag.text table e.attributes attributes table₁ ∧
      ChildrenHanded env e.children table₁ children table' ∧
      (object.isMerged = true ↔ ∃ value, .spread value ∈ e.attributes) ∧
      ((∀ item ∈ attributes, item.texts.length = 1) ↔
        ∀ a ∈ e.attributes, a.isHanded = true → a.places = 1) := by
  rw [emitMarkup_eq, Emitters.markupText, Emitters.element, if_pos hcomponent] at hrun
  obtain ⟨fromAttributes, table₁, hattributes, hrun⟩ := Emit.runFrom_bind_eq_ok.1 hrun
  obtain ⟨fromChildren, hchildren, rfl⟩ := Emit.runFrom_bind_pure_eq_ok.1 hrun
  obtain ⟨attributes, hinTurn, hadded⟩ := exists_handedInTurn hattributes
  obtain ⟨children, hhanded, haddedLast⟩ := exists_childrenHanded hchildren
  -- Attributes and children add to one list, and the object is made of that.
  have hadditions : (fromAttributes ++ [fromChildren]).filterMap id =
      (attributes ++ children).map Handed.addition := by
    rw [List.filterMap_append, hadded, List.map_append, ← haddedLast]
    cases fromChildren <;> rfl
  obtain ⟨object, htext, hobject, hmerged⟩ :=
    Emitters.exists_object_of_properties (attributes ++ children)
  refine ⟨object, attributes, children, table₁, ?_, hobject, hinTurn, hhanded, ?_,
    hinTurn.length_texts_iff⟩
  · rw [hadditions, htext]
  · have hany : object.isMerged = e.attributes.any Attribute.isSpread := by
      rw [hmerged, List.map_append, List.any_append, hinTurn.any_isObject,
        hhanded.any_isObject, Bool.or_false]
    rw [hany, List.any_eq_true]
    constructor
    · rintro ⟨a, ha, hspread⟩
      cases a with
      | spread value => exact ⟨value, ha⟩
      | named name value => cases hspread
    · rintro ⟨value, hvalue⟩
      exact ⟨.spread value, hvalue, rfl⟩

/-- A card with properties before and after an object that is spread, and a text between its tags:
`<Card a="1" {...rest} key="k" id>hi</Card>`. -/
def spreadCard : Element :=
  .mk ⟨0, 43⟩ (.plain "Card")
    [.named "a" (.text "1"), .spread (.ident ⟨16, 20⟩ "rest"), .named "key" (.text "k"),
      .named "id" .bare] [.text "hi"]

/-- The properties of the card are merged from several objects, and each of its attributes is one
text in them. -/
theorem properties_handed_in_order_spreadCard :
    ∃ (code : String) (object : PropertyObject) (attributes children : List Handed),
      ((emitMarkup (.element spreadCard)).runFrom ⟨[], {}⟩ {}).1 = .ok code ∧
      code = "_$unwrapComponent(Card(_$unwrapProps(" ++ object.text ++ ")))" ∧
      object.handed = attributes ++ children ∧ object.isMerged = true ∧
      ∀ item ∈ attributes, item.texts.length = 1 := by
  obtain ⟨code, table', hrun⟩ : ∃ code table',
      (emitMarkup (.element spreadCard)).runFrom ⟨[], {}⟩ {} = (.ok code, table') :=
    ⟨_, _, rfl⟩
  obtain ⟨object, attributes, children, table₁, hcode, hobject, -, -, hmerged, hplaces⟩ :=
    properties_handed_in_order spreadCard ⟨[], {}⟩ {} table' code (by decide) hrun
  have hone : ∀ a ∈ spreadCard.attributes, a.isHanded = true → a.places = 1 := by decide
  exact ⟨code, object, attributes, children, congrArg Prod.fst hrun, hcode, hobject,
    hmerged.2 ⟨_, List.mem_cons_of_mem _ (.head _)⟩, hplaces.2 hone⟩

/-! ## A value with a comma -/

namespace Syntax

/-- The first argument of a call. -/
def Expr.firstArgument? : Expr → Option Expr
  | .call _ _ _ (.value argument :: _) _ => some argument
  | _ => none

/-- The name of a property that is written as a name. -/
def Property.name? : Property → Option String
  | .field (.ident _ name) false _ => some name
  | .shorthand (.ident _ name) => some name
  | _ => none

/-- The names of the properties in the object literal that the call of a component hands over. -/
def Expr.handedNames? (e : Expr) : Option (List (Option String)) := do
  let call ← e.firstArgument?
  let wrapped ← call.firstArgument?
  match ← wrapped.firstArgument? with
  | .object _ properties => some (properties.map Property.name?)
  | _ => none

end Syntax

/-- The code of a card with one attribute, for the code of its value. -/
def cardCode (value : String) : String :=
  "import \x7b unwrapProps as _$unwrapProps, unwrapComponent as _$unwrapComponent \x7d " ++
  "from \"sprig/dom\";\n_$unwrapComponent(Card(_$unwrapProps(\x7b x: " ++ value ++ " \x7d)))"

/-- A component with one attribute hands over two properties if the attribute's value has a comma.
If what stands after the comma is no name, the code is that of no module. -/
theorem comma_value_is_two_entries :
    (compile "<Card x=\x7ba, b\x7d/>" "a.jsx" {} = .ok (some (cardCode "a, b")) ∧
      ∃ m, parseModule (FileId.dialect "a.jsx") (cardCode "a, b").toList = .ok m ∧
        m.expressions.map Expr.handedNames? = [some [some "x", some "b"]]) ∧
    compile "<Card x=\x7ba, b()\x7d/>" "a.jsx" {} = .ok (some (cardCode "a, b()")) ∧
      ∀ m, parseModule (FileId.dialect "a.jsx") (cardCode "a, b()").toList ≠ .ok m := by
  have hunread : ∀ m, parseModule (FileId.dialect "a.jsx") (cardCode "a, b()").toList = .ok m →
      False := by
    decide +kernel
  obtain ⟨m, hparse, hnames⟩ :
      ∃ m, parseModule (FileId.dialect "a.jsx") (cardCode "a, b").toList = .ok m ∧
        (m.expressions.map Expr.handedNames? == [some [some "x", some "b"]]) = true :=
    exists_of_any_toOption (by decide +kernel)
  exact ⟨⟨eq_ok_of_toOption (by decide +kernel), m, hparse, eq_of_beq hnames⟩,
    eq_ok_of_toOption (by decide +kernel), hunread⟩

end MarkupCompiler
