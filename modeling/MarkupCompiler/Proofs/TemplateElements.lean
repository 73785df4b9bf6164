import MarkupCompiler.Proofs.Pieces

/-!
# The elements of a template

An element of HTML that stands between the tags of another belongs to the template of the outer one.
`Element.elements` lists the elements of a template, so that a statement about all its tags or names
can range over them. `Element.atPath` finds one of them by its path, which is how the parts of a
skeleton name the elements that they belong to, and `Element.exists_pieces_infix_of_atPath` says
that the pieces of that element stand among those of the whole, under this path.
-/

namespace MarkupCompiler.Syntax

/-! ## All elements -/

mutual

/-- The elements that are written into the template of an element, in the order of their start tags:
itself and, unless it is void, those between its tags. -/
def Element.elements : Element → List Element
  | .mk span tag attributes children =>
    .mk span tag attributes children ::
      if isVoidTag tag.text then [] else childrenElements children

/-- The elements that markup adds to the template around it. -/
def Markup.elements : Markup → List Element
  | .element e => if e.isComponent then [] else e.elements
  | .fragment _ _ => []

/-- The elements that a child adds to the template around it. -/
def Child.elements : Child → List Element
  | .markup m => m.elements
  | .text _ | .expr _ | .empty | .spread _ => []

/-- The elements that children add to the template around them. -/
def childrenElements : List Child → List Element
  | [] => []
  | child :: children => child.elements ++ childrenElements children

end

/-- What holds of all elements that children add holds of those of the first and of the others. -/
theorem forall_mem_childrenElements_cons {P : Element → Prop} {child : Child}
    {children : List Child} (h : ∀ d ∈ childrenElements (child :: children), P d) :
    (∀ d ∈ child.elements, P d) ∧ ∀ d ∈ childrenElements children, P d := by
  rw [childrenElements] at h
  exact List.forall_mem_append.1 h

/-! ## Elements by their paths -/

/-- The element of HTML that a child is. -/
def Child.element? : Child → Option Element
  | .markup (.element e) => if e.isComponent then none else some e
  | .markup (.fragment _ _) | .text _ | .expr _ | .empty | .spread _ => none

/-- The elements of the template right between the tags of an element. -/
def Element.nested (e : Element) : List Element :=
  if isVoidTag e.tag.text then [] else e.children.filterMap Child.element?

/-- The element of the template at the end of a path. A step leads to one of the elements between
the tags, by its index among them. -/
def Element.atPath : List Nat → Element → Option Element
  | [], e => some e
  | index :: path, e => e.nested[index]?.bind (atPath path)

/-- A path is followed in two goes like in one. -/
theorem Element.atPath_append (path rest : List Nat) (e : Element) :
    e.atPath (path ++ rest) = (e.atPath path).bind (Element.atPath rest) := by
  induction path generalizing e with
  | nil => rfl
  | cons index path ih =>
    rw [List.cons_append, Element.atPath, Element.atPath]
    cases e.nested[index]? with
    | none => rfl
    | some child => exact ih child

/-- A child is an element of HTML exactly if it is counted as one. -/
theorem Child.isElement_eq (c : Child) : c.isElement = c.element?.isSome := by
  cases c with
  | markup m =>
    cases m with
    | element e =>
      rw [Child.isElement, Child.element?]
      cases e.isComponent <;> rfl
    | fragment span children => rfl
  | text raw => rfl
  | expr value => rfl
  | empty => rfl
  | spread value => rfl

/-- The pieces of a child that is an element of HTML are those of the element, one step further. -/
theorem Child.pieces_of_element? {c : Child} {e : Element} (h : c.element? = some e)
    (path : List Nat) (index next : Nat) :
    c.pieces path index next = e.pieces (path ++ [index]) next := by
  cases c with
  | markup m =>
    cases m with
    | element child =>
      rw [Child.element?] at h
      rw [Child.pieces, Markup.pieces]
      split at h
      · cases h
      · rename_i hcomponent
        cases h
        rw [if_neg hcomponent]
    | fragment span children => cases h
  | text raw => cases h
  | expr value => cases h
  | empty => cases h
  | spread value => cases h

/-- The pieces of an element among children stand among the pieces of the children. -/
theorem exists_pieces_infix_childrenPieces {children : List Child} {position : Nat} {e : Element}
    (h : (children.filterMap Child.element?)[position]? = some e) (path : List Nat)
    (index next : Nat) :
    ∃ start, e.pieces (path ++ [index + position]) start <:+:
      childrenPieces path index next children := by
  induction children generalizing position index next with
  | nil => cases h
  | cons child children ih =>
    rw [childrenPieces_cons, child.isElement_eq]
    cases helement : child.element? with
    | none =>
      rw [List.filterMap_cons_none helement] at h
      obtain ⟨start, hinfix⟩ := ih h index (next + child.markers)
      exact ⟨start, hinfix.trans (List.suffix_append _ _).isInfix⟩
    | some element =>
      rw [List.filterMap_cons_some helement] at h
      cases position with
      | zero =>
        cases h
        refine ⟨next, ?_⟩
        rw [Child.pieces_of_element? helement, Nat.add_zero]
        exact (List.prefix_append _ _).isInfix
      | succ position =>
        rw [List.getElem?_cons_succ] at h
        obtain ⟨start, hinfix⟩ := ih h (index + 1) (next + child.markers)
        rw [Nat.add_right_comm, Nat.add_assoc] at hinfix
        exact ⟨start, hinfix.trans (List.suffix_append _ _).isInfix⟩

/-- The pieces of children stand among those of their element, unless it is void. -/
theorem Element.childrenPieces_infix_pieces {e : Element} (h : isVoidTag e.tag.text = false)
    (path : List Nat) (next : Nat) :
    childrenPieces path 0 next e.children <:+: e.pieces path next := by
  obtain ⟨span, tag, attributes, children⟩ := e
  have hvoid : isVoidTag tag.text = false := h
  refine ⟨.html ("<" ++ tag.text) :: (attributes.flatMap (Attribute.pieces path) ++ [.html ">"]),
    [.html ("</" ++ tag.text ++ ">")], ?_⟩
  rw [Element.pieces, hvoid, Element.children]
  simp

/-- The elements between the tags of an element are those among its children, and the element is
not void. -/
theorem Element.nested_eq_some {e child : Element} {index : Nat}
    (h : e.nested[index]? = some child) :
    isVoidTag e.tag.text = false ∧ (e.children.filterMap Child.element?)[index]? = some child := by
  rw [Element.nested] at h
  cases hvoid : isVoidTag e.tag.text with
  | true =>
    rw [hvoid] at h
    cases h
  | false =>
    rw [hvoid] at h
    exact ⟨rfl, h⟩

/-- The pieces of an element of the template stand among the pieces of the whole, under its path. -/
theorem Element.exists_pieces_infix_of_atPath {e owner : Element} {path : List Nat}
    (h : e.atPath path = some owner) (base : List Nat) (next : Nat) :
    ∃ start, owner.pieces (base ++ path) start <:+: e.pieces base next := by
  induction path generalizing e base next with
  | nil =>
    cases h
    rw [List.append_nil]
    exact ⟨next, List.infix_rfl⟩
  | cons index path ih =>
    rw [Element.atPath, Option.bind_eq_some_iff] at h
    obtain ⟨child, hchild, howner⟩ := h
    obtain ⟨hvoid, hposition⟩ := Element.nested_eq_some hchild
    obtain ⟨start, hinfix⟩ := exists_pieces_infix_childrenPieces hposition base 0 next
    obtain ⟨start', hinfix'⟩ := ih howner (base ++ [0 + index]) start
    rw [Nat.zero_add, List.append_assoc, List.singleton_append] at hinfix'
    rw [Nat.zero_add] at hinfix
    exact ⟨start',
      (hinfix'.trans hinfix).trans (Element.childrenPieces_infix_pieces hvoid base next)⟩

end MarkupCompiler.Syntax
