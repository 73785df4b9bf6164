import MarkupCompiler.Proofs.TemplateElements

/-!
# Static elements are those without parts

Whether an element is static is decided by one walk over its attributes and children, and its
skeleton is made by another. `Element.static_agrees_with_skeleton` says that the two walks agree: a
static element has no parts, no markers and one piece of HTML, and an element of HTML without parts
is static. The two walks differ in one thing only. The children of a void element are no part of the
HTML, but they are asked whether they are static, so the second direction needs void elements to
have no children.
-/

namespace MarkupCompiler.Syntax

/-! ## Without parts -/

/-- Pieces without parts have no markers. -/
theorem markerCount_of_partsOf_eq_nil {pieces : List Piece} (h : partsOf pieces = []) :
    markerCount pieces = 0 := by
  induction pieces with
  | nil => rfl
  | cons piece pieces ih =>
    cases piece with
    | html text => exact ih h
    | slot part => cases h

/-- Pieces without parts are joined to one, unless there are none. -/
theorem exists_joinHtml_of_partsOf_eq_nil {pieces : List Piece} (hne : pieces ≠ [])
    (h : partsOf pieces = []) : ∃ html, joinHtml pieces = [.html html] := by
  induction pieces with
  | nil => exact absurd rfl hne
  | cons piece pieces ih =>
    cases piece with
    | slot part => cases h
    | html text =>
      cases pieces with
      | nil => exact ⟨text, rfl⟩
      | cons second pieces =>
        obtain ⟨rest, hrest⟩ := ih (List.cons_ne_nil _ _) h
        exact ⟨text ++ rest, by rw [joinHtml, hrest]⟩

/-- Attributes without parts are static. -/
theorem all_isStatic_of_partsOf_eq_nil (path : List Nat) {attributes : List Attribute}
    (h : partsOf (attributes.flatMap (Attribute.pieces path)) = []) :
    attributes.all Attribute.isStatic = true := by
  induction attributes with
  | nil => rfl
  | cons a attributes ih =>
    rw [List.flatMap_cons, partsOf_append, List.append_eq_nil_iff] at h
    rw [List.all_cons, Bool.and_eq_true]
    refine ⟨?_, ih h.2⟩
    cases hstatic : a.isStatic with
    | true => rfl
    | false =>
      -- An attribute that is not static is a part.
      obtain ⟨name, value, -, hparts⟩ := a.partsOf_pieces_of_not_isStatic path hstatic
      rw [hparts] at h
      cases h.1

/-! ## From parts to the test -/

/-- A void element has no children. -/
def Element.EmptyIfVoid (e : Element) : Prop := isVoidTag e.tag.text = true → e.children = []

mutual

/-- An element of HTML without parts is static, if the void elements in its template are empty. -/
theorem Element.isStatic_of_partsOf_eq_nil (path : List Nat) (next : Nat) :
    ∀ e : Element, e.isComponent = false → (∀ d ∈ e.elements, d.EmptyIfVoid) →
      partsOf (e.pieces path next) = [] → e.isStatic = true
  | .mk span tag attributes children, hcomponent, hvoids, hparts => by
    rw [Element.elements, List.forall_mem_cons] at hvoids
    rw [Element.pieces, partsOf_html, partsOf_append, partsOf_html, List.append_eq_nil_iff]
      at hparts
    have htag : tag.isComponent = false := hcomponent
    have hattributes := all_isStatic_of_partsOf_eq_nil path hparts.1
    rw [Element.isStatic, htag, hattributes, Bool.not_false, Bool.true_and, Bool.true_and]
    by_cases hvoid : isVoidTag tag.text = true
    · -- The children of a void element are not in the template, so they have to be none.
      have hempty : children = [] := hvoids.1 hvoid
      rw [hempty]
      rfl
    · rw [if_neg hvoid, partsOf_append, List.append_eq_nil_iff] at hparts
      rw [if_neg hvoid] at hvoids
      exact childrenAreStatic_of_partsOf_eq_nil path 0 next children hvoids.2 hparts.2.1

/-- Markup without parts is a static element. -/
theorem Markup.isStatic_of_partsOf_eq_nil (path : List Nat) (index next : Nat) :
    ∀ m : Markup, (∀ d ∈ m.elements, d.EmptyIfVoid) →
      partsOf (m.pieces path index next) = [] → m.isStatic = true
  | .element e, hvoids, hparts => by
    rw [Markup.pieces] at hparts
    rw [Markup.elements] at hvoids
    cases hcomponent : e.isComponent with
    | true =>
      rw [hcomponent] at hparts
      cases hparts
    | false =>
      rw [hcomponent] at hparts hvoids
      exact Element.isStatic_of_partsOf_eq_nil (path ++ [index]) next e hcomponent hvoids hparts
  | .fragment _ _, _, hparts => by cases hparts

/-- A child without parts is static. -/
theorem Child.isStatic_of_partsOf_eq_nil (path : List Nat) (index next : Nat) :
    ∀ c : Child, (∀ d ∈ c.elements, d.EmptyIfVoid) →
      partsOf (c.pieces path index next) = [] → c.isStatic = true
  | .text _, _, _ => rfl
  | .markup m, hvoids, hparts =>
    Markup.isStatic_of_partsOf_eq_nil path index next m hvoids hparts
  | .expr _, _, hparts => by cases hparts
  | .empty, _, _ => rfl
  | .spread _, _, hparts => by cases hparts

/-- Children without parts are static. -/
theorem childrenAreStatic_of_partsOf_eq_nil (path : List Nat) (index next : Nat) :
    ∀ children : List Child, (∀ d ∈ childrenElements children, d.EmptyIfVoid) →
      partsOf (childrenPieces path index next children) = [] → childrenAreStatic children = true
  | [], _, _ => rfl
  | child :: children, hvoids, hparts => by
    obtain ⟨hfirst, hrest⟩ := forall_mem_childrenElements_cons hvoids
    rw [childrenPieces_cons, partsOf_append, List.append_eq_nil_iff] at hparts
    rw [childrenAreStatic, Bool.and_eq_true]
    exact ⟨Child.isStatic_of_partsOf_eq_nil path index next child hfirst hparts.1,
      childrenAreStatic_of_partsOf_eq_nil _ _ _ children hrest hparts.2⟩

end

/-! ## The two walks -/

/-- A static element is no component. -/
theorem Element.isComponent_of_isStatic {e : Element} (h : e.isStatic = true) :
    e.isComponent = false := by
  obtain ⟨span, tag, attributes, children⟩ := e
  rw [Element.isStatic, Bool.and_eq_true, Bool.and_eq_true, Bool.not_eq_true'] at h
  exact h.1.1

/-- A static element is an element of HTML whose skeleton, from any marker on, has no parts and no
markers and is one piece of HTML. Conversely, an element of HTML whose skeleton has no parts is
static, if no void element in its template has children. -/
theorem Element.static_agrees_with_skeleton (e : Element) (next : Nat) :
    (e.isStatic = true →
      e.isComponent = false ∧ (e.skeleton next).parts = [] ∧ (e.skeleton next).markers = 0 ∧
        ∃ html, (e.skeleton next).pieces = [.html html]) ∧
    (e.isComponent = false →
      (∀ d ∈ e.elements, isVoidTag d.tag.text = true → d.children = []) →
      (e.skeleton next).parts = [] → e.isStatic = true) := by
  constructor
  · intro hstatic
    have hparts := e.skeleton_parts_of_isStatic next hstatic
    refine ⟨isComponent_of_isStatic hstatic, hparts, markerCount_of_partsOf_eq_nil ?_, ?_⟩
    · rw [e.partsOf_skeleton_pieces, hparts]
    rw [e.skeleton_pieces]
    refine exists_joinHtml_of_partsOf_eq_nil ?_ (e.partsOf_pieces_of_isStatic [] next hstatic)
    obtain ⟨span, tag, attributes, children⟩ := e
    exact List.cons_ne_nil _ _
  · intro hcomponent hvoids hparts
    rw [e.skeleton_parts] at hparts
    exact e.isStatic_of_partsOf_eq_nil [] next hcomponent hvoids hparts

/-- The list `<ul key={k} hidden><li>one</li><br/>{/**/}</ul>`. -/
def shortList : Element :=
  .mk ⟨0, 45⟩ (.plain "ul")
    [.named "key" (.expr (.ident ⟨9, 10⟩ "k")), .named "hidden" .bare]
    [.markup (.element (.mk ⟨19, 31⟩ (.plain "li") [] [.text "one"])),
      .markup (.element (.mk ⟨31, 36⟩ (.plain "br") [] [])), .empty]

/-- The list is static, and is one piece of HTML; its skeleton alone shows it to be static. -/
theorem Element.static_agrees_with_skeleton_shortList :
    (shortList.isStatic = true ∧ ∃ html, (shortList.skeleton 7).pieces = [.html html]) ∧
      (shortList.skeleton 7).templateHtml = "<ul hidden><li>one</li><br></ul>" ∧
      shortList.elements.map (·.tag.text) = ["ul", "li", "br"] := by
  obtain ⟨hskeleton, hstatic⟩ := shortList.static_agrees_with_skeleton 7
  have hvoids : ∀ d ∈ shortList.elements, isVoidTag d.tag.text = true → d.children = [] := by
    decide +kernel
  have htest := hstatic (by decide +kernel) hvoids (by decide +kernel)
  exact ⟨⟨htest, (hskeleton htest).2.2.2⟩, by decide +kernel, by decide +kernel⟩

-- A void element with a child has no parts, and is not static if the child is not.
example : ∃ e : Element, e.isComponent = false ∧ (e.skeleton 0).parts = [] ∧ e.isStatic = false :=
  ⟨.mk ⟨0, 13⟩ (.plain "br") [] [.expr (.ident ⟨5, 6⟩ "x")], rfl, rfl, rfl⟩

end MarkupCompiler.Syntax
