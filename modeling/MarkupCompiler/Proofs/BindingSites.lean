import Mathlib.Data.List.Forall2
import MarkupCompiler.Proofs.TemplateTree

/-!
# Parts are found where they were written

When the program runs, a part is bound to the place that its path and marker lead to in a clone of
the template. A path counts elements only, whereas an element stands among text, comments and other
children in the source. `Element.parts_bound` says that the two agree: the parts of a skeleton are
those of the sites where something is left open in the markup, one after the other, and the path of
a part leads to the node of the element that the site belongs to. Behind the text of a child's
marker stand the nodes of the children after it, and before it those of the children before it.

The nodes of a document are labelled by the way to their elements in the markup, so that the node of
an element is told apart from that of a look-alike (`Element.labels_node`).
-/

namespace MarkupCompiler

namespace Html

/-! ## Paths in a document -/

/-- The children of a node. -/
def Node.children {α : Type} : Node α → List (Node α)
  | .element _ _ _ children => children
  | .text _ | .comment _ => []

/-- Whether a node is an element. -/
def Node.isElement {α : Type} : Node α → Bool
  | .element _ _ _ _ => true
  | .text _ | .comment _ => false

/-- The node at the end of a path. A step leads to a child by its index among the elements. -/
def Node.follow {α : Type} : List Nat → Node α → Option (Node α)
  | [], node => some node
  | index :: path, node => (node.children.filter Node.isElement)[index]?.bind (follow path)

/-- The last step of a path leads to a child of the node before it. -/
theorem Node.follow_append {α : Type} (path : List Nat) (index : Nat) (node : Node α) :
    node.follow (path ++ [index]) =
      (node.follow path).bind fun last => (last.children.filter Node.isElement)[index]? := by
  induction path generalizing node with
  | nil => simp [Node.follow]
  | cons first path ih =>
    rw [List.cons_append, Node.follow, Node.follow]
    cases (node.children.filter Node.isElement)[first]? with
    | none => rfl
    | some child => exact ih child

/-- Merging texts keeps the elements. -/
theorem filter_isElement_mergeTexts {α : Type} (nodes : List (Node α)) :
    (mergeTexts nodes).filter Node.isElement = nodes.filter Node.isElement := by
  rw [← List.filterMap_eq_filter, List.filterMap_eq_flatMap_toList,
    List.filterMap_eq_flatMap_toList]
  exact flatMap_mergeTexts (fun _ => rfl) nodes

/-- A node that is no text keeps the texts on its two sides apart. -/
theorem mergeTexts_append_cons {α : Type} (nodes : List (Node α)) {node : Node α}
    (h : node.isText = false) (rest : List (Node α)) :
    mergeTexts (nodes ++ node :: rest) = mergeTexts nodes ++ node :: mergeTexts rest := by
  induction nodes with
  | nil => exact mergeTexts_cons h rest
  | cons first nodes ih =>
    cases first with
    | text content =>
      simp only [List.cons_append, mergeTexts, ih]
      -- Whether this text meets another does not depend on what comes behind the node.
      rcases mergeTexts nodes with _ | ⟨second, merged⟩
      · cases node with
        | text content => cases h
        | element label tag attributes children => rfl
        | comment content => rfl
      · cases second <;> rfl
    | element label tag attributes children => simp only [List.cons_append, mergeTexts, ih]
    | comment content => simp only [List.cons_append, mergeTexts, ih]

end Html

open Html

namespace Syntax

/-! ## Sites -/

/-- What is left open in an element: an attribute or a child, by its index. -/
inductive Point where
  | inTag (index : Nat)
  | inContent (index : Nat)
  deriving DecidableEq, Repr, Inhabited

/-- A place of markup that is left open: the way to an element, by the indices of children among all
children, and a point of that element. -/
structure Site where
  owner : List Nat
  point : Point
  deriving DecidableEq, Repr, Inhabited

/-- The sites of attributes, the first of which has an index, of the element at an address. -/
def attributeSites (address : List Nat) (index : Nat) : List Attribute → List Site
  | [] => []
  | a :: attributes =>
    (if a.isStatic then [] else [⟨address, .inTag index⟩]) ++
      attributeSites address (index + 1) attributes

mutual

/-- The sites of the element at an address, in source order: those of its attributes and, unless it
is void, those of its children. -/
def Element.sites (address : List Nat) : Element → List Site
  | .mk _ tag attributes children =>
    attributeSites address 0 attributes ++
      if isVoidTag tag.text then [] else childrenSites address 0 children

/-- The sites of markup that is the child with an index. -/
def Markup.sites (address : List Nat) (index : Nat) : Markup → List Site
  | .element e =>
    if e.isComponent then [⟨address, .inContent index⟩] else e.sites (address ++ [index])
  | .fragment _ _ => [⟨address, .inContent index⟩]

/-- The sites of the child with an index. -/
def Child.sites (address : List Nat) (index : Nat) : Child → List Site
  | .text _ | .empty => []
  | .markup m => m.sites address index
  | .expr _ | .spread _ => [⟨address, .inContent index⟩]

/-- The sites of children, the first of which has an index. -/
def childrenSites (address : List Nat) (index : Nat) : List Child → List Site
  | [] => []
  | child :: children => child.sites address index ++ childrenSites address (index + 1) children

end

/-- The element at an address. -/
def Element.descend : List Nat → Element → Option Element
  | [], e => some e
  | index :: address, e =>
    match e.children[index]? with
    | some (.markup (.element child)) => child.descend address
    | _ => none

/-- A part of the element `e` is bound at a site, in the document `root`: its path leads to the node
of the element that the site belongs to, and it is filled with what stands at the site. The marker
of a child is a comment among the children of that node, where the child stands among its siblings.
-/
inductive BoundAt (e : Element) (root : Node (List Nat)) : Part → Site → Prop
  | inTag {part : Part} {address : List Nat} {index start : Nat} {owner : Element} {a : Attribute}
      {name : Option String} (howner : e.descend address = some owner)
      (hpath : root.follow part.path = some (owner.node address start))
      (hattribute : owner.attributes[index]? = some a)
      (hfiller : a.filler? = some (name, part.value)) (hplace : part.place = .inTag name) :
      BoundAt e root part ⟨address, .inTag index⟩
  | inContent {part : Part} {address : List Nat} {start marker : Nat} {owner : Element}
      {before after : List Child} {child : Child} (howner : e.descend address = some owner)
      (hpath : root.follow part.path = some (owner.node address start))
      (hchild : owner.children = before ++ child :: after)
      (hfiller : child.filler? = some part.value) (hplace : part.place = .inContent marker)
      (hnodes : (owner.node address start).children =
        mergeTexts (childrenNodes address 0 start before) ++ markerNode marker ::
          mergeTexts (childrenNodes address (before.length + 1) (marker + 1) after)) :
      BoundAt e root part ⟨address, .inContent before.length⟩

/-! ## The nodes of children -/

/-- Markers are counted child by child. -/
theorem childrenMarkers_append (before after : List Child) :
    childrenMarkers (before ++ after) = childrenMarkers before + childrenMarkers after := by
  induction before with
  | nil => simp [childrenMarkers]
  | cons child before ih =>
    rw [List.cons_append, childrenMarkers, childrenMarkers, ih, Nat.add_assoc]

/-- The nodes of children are those of the first ones and then those of the others. -/
theorem childrenNodes_append (address : List Nat) (index next : Nat) (before after : List Child) :
    childrenNodes address index next (before ++ after) =
      childrenNodes address index next before ++
        childrenNodes address (index + before.length) (next + childrenMarkers before) after := by
  induction before generalizing index next with
  | nil => simp [childrenNodes, childrenMarkers]
  | cons child before ih =>
    rw [List.cons_append, childrenNodes, childrenNodes, ih, List.append_assoc, childrenMarkers,
      List.length_cons]
    congr 3 <;> omega

/-- A child has an element among its nodes if it is an element of the HTML. -/
theorem Child.length_elements (address : List Nat) (next : Nat) (c : Child) :
    ((c.nodes address next).filter Node.isElement).length = if c.isElement then 1 else 0 := by
  cases c with
  | text raw =>
    rw [Child.nodes]
    split <;> rfl
  | markup m =>
    cases m with
    | element e =>
      rw [Child.nodes, Markup.nodes, Child.isElement]
      cases e.isComponent with
      | true => rfl
      | false =>
        obtain ⟨span, tag, attributes, children⟩ := e
        rfl
    | fragment span children => rfl
  | expr value => rfl
  | empty => rfl
  | spread value => rfl

/-- Children have as many elements among their nodes as there are elements of the HTML. -/
theorem length_elements_childrenNodes (address : List Nat) (index next : Nat)
    (children : List Child) :
    ((childrenNodes address index next children).filter Node.isElement).length =
      (children.filter Child.isElement).length := by
  induction children generalizing index next with
  | nil => rfl
  | cons child children ih =>
    rw [childrenNodes, List.filter_append, List.length_append, child.length_elements, ih,
      List.filter_cons]
    cases child.isElement with
    | true => simp [Nat.add_comm]
    | false => simp

/-- The children of an element's node are the nodes of its children, unless it is void. -/
theorem Element.children_node {e : Element} (h : isVoidTag e.tag.text = false)
    (address : List Nat) (start : Nat) :
    (e.node address start).children = mergeTexts (childrenNodes address 0 start e.children) := by
  obtain ⟨span, tag, attributes, children⟩ := e
  rw [Element.node, Node.children]
  exact if_neg (by simpa [Element.tag] using h)

/-- The last step of an address leads to a child. -/
theorem Element.descend_append (address : List Nat) (index : Nat) {e owner : Element}
    (h : e.descend address = some owner) :
    e.descend (address ++ [index]) = owner.descend [index] := by
  induction address generalizing e with
  | nil =>
    cases h
    rfl
  | cons first address ih =>
    rw [Element.descend] at h
    rw [List.cons_append, Element.descend]
    split at h
    · exact ih h
    · cases h

/-! ## An element and its place in the whole -/

/-- In the element `e` with the document `root`, the element `owner` stands at an address and is
found along a path, with markers from `start` on. -/
structure Reached (e : Element) (root : Node (List Nat)) (path address : List Nat) (start : Nat)
    (owner : Element) : Prop where
  descend_eq : e.descend address = some owner
  follow_eq : root.follow path = some (owner.node address start)

/-- A child that is an element of the HTML is reached through its parent: its step in the address
counts all children before it, its step in the path only the elements. -/
theorem Reached.child {e : Element} {root : Node (List Nat)} {path address : List Nat} {start : Nat}
    {owner child : Element} {before after : List Child}
    (h : Reached e root path address start owner) (hvoid : isVoidTag owner.tag.text = false)
    (hchildren : owner.children = before ++ .markup (.element child) :: after)
    (hcomponent : child.isComponent = false) :
    Reached e root (path ++ [(before.filter Child.isElement).length]) (address ++ [before.length])
      (start + childrenMarkers before) child where
  descend_eq := by
    rw [Element.descend_append _ _ h.descend_eq, Element.descend, hchildren]
    simp [Element.descend]
  follow_eq := by
    have hnode : (child.node (address ++ [before.length])
        (start + childrenMarkers before)).isElement = true := by
      obtain ⟨span, tag, attributes, children⟩ := child
      rfl
    -- Before the child's node stand as many elements as there are elements of the HTML among the
    -- children before it, so the last step of the path leads to that node.
    rw [Node.follow_append, h.follow_eq, Option.bind_some, Element.children_node hvoid,
      filter_isElement_mergeTexts, hchildren, childrenNodes_append, List.filter_append,
      List.getElem?_append_right (Nat.le_of_eq (length_elements_childrenNodes ..)),
      length_elements_childrenNodes, Nat.sub_self, childrenNodes, Child.nodes, Markup.nodes,
      hcomponent, Nat.zero_add]
    simp [hnode]

/-- The marker of a child stands among the nodes of its parent where the child stands. -/
theorem Reached.marker {e : Element} {root : Node (List Nat)} {path address : List Nat}
    {start : Nat} {owner : Element} {before after : List Child} {child : Child} {value : PartValue}
    (h : Reached e root path address start owner) (hvoid : isVoidTag owner.tag.text = false)
    (hchildren : owner.children = before ++ child :: after) (hfiller : child.filler? = some value)
    (hnodes : child.nodes (address ++ [before.length]) (start + childrenMarkers before) =
      [markerNode (start + childrenMarkers before)]) (hmarkers : child.markers = 1) :
    BoundAt e root ⟨path, .inContent (start + childrenMarkers before), value⟩
      ⟨address, .inContent before.length⟩ := by
  refine .inContent h.descend_eq h.follow_eq hchildren hfiller rfl ?_
  rw [Element.children_node hvoid, hchildren, childrenNodes_append, childrenNodes, Nat.zero_add,
    hnodes, hmarkers, List.singleton_append]
  exact mergeTexts_append_cons _ rfl _

/-- The parts of attributes are bound at their sites. -/
theorem Reached.attributes {e : Element} {root : Node (List Nat)} {path address : List Nat}
    {start : Nat} {owner : Element} (h : Reached e root path address start owner)
    (before attributes : List Attribute) (howner : owner.attributes = before ++ attributes) :
    List.Forall₂ (BoundAt e root) (partsOf (attributes.flatMap (Attribute.pieces path)))
      (attributeSites address before.length attributes) := by
  induction attributes generalizing before with
  | nil => exact .nil
  | cons a attributes ih =>
    -- The length of `before`, the attributes that are done, is the index of this one.
    have hrest := ih (before ++ [a]) (by simpa using howner)
    rw [List.length_append, List.length_singleton] at hrest
    rw [List.flatMap_cons, partsOf_append, attributeSites]
    cases hstatic : a.isStatic with
    | true =>
      rw [a.partsOf_pieces_of_isStatic path hstatic]
      exact hrest
    | false =>
      obtain ⟨name, value, hfiller, hparts⟩ := a.partsOf_pieces_of_not_isStatic path hstatic
      rw [hparts]
      refine .cons (.inTag h.descend_eq h.follow_eq ?_ hfiller rfl) hrest
      rw [howner]
      simp

/-! ## All parts -/

variable {e : Element} {root : Node (List Nat)}

mutual

/-- The parts of an element that is reached are bound at its sites. -/
theorem Element.bound (path address : List Nat) (start : Nat) :
    ∀ owner : Element, Reached e root path address start owner →
      List.Forall₂ (BoundAt e root) (partsOf (owner.pieces path start)) (owner.sites address)
  | .mk span tag attributes children, h => by
    have hattributes := h.attributes [] attributes rfl
    unfold Element.pieces Element.sites
    rw [partsOf_html, partsOf_append, partsOf_html]
    refine List.rel_append hattributes ?_
    by_cases hvoid : isVoidTag tag.text = true
    · rw [if_pos hvoid, if_pos hvoid]
      exact .nil
    · rw [if_neg hvoid, if_neg hvoid, partsOf_append, partsOf_html, partsOf_nil, List.append_nil]
      have htag : isVoidTag (Element.mk span tag attributes children).tag.text = false := by
        simpa [Element.tag] using hvoid
      exact childrenBound path address start _ h htag [] children rfl
termination_by structural owner => owner

/-- The parts of markup that is a child of a reached element are bound at its sites. -/
theorem Markup.bound (path address : List Nat) (start : Nat) (owner : Element)
    (h : Reached e root path address start owner) (hvoid : isVoidTag owner.tag.text = false)
    (before : List Child) :
    ∀ (m : Markup) (after : List Child), owner.children = before ++ .markup m :: after →
      List.Forall₂ (BoundAt e root)
        (partsOf (m.pieces path (before.filter Child.isElement).length
          (start + childrenMarkers before)))
        (m.sites address before.length)
  | .element child, after, hchildren => by
    unfold Markup.pieces Markup.sites
    cases hcomponent : child.isComponent with
    | true =>
      refine .cons (h.marker hvoid hchildren rfl ?_ ?_) .nil
      · rw [Child.nodes, Markup.nodes, hcomponent]
        rfl
      · rw [Child.markers, Markup.markers, hcomponent]
        rfl
    -- An element of the HTML is reached through its parent, and owns its parts itself.
    | false => exact Element.bound _ _ _ child (h.child hvoid hchildren hcomponent)
  | .fragment span children, after, hchildren =>
    .cons (h.marker hvoid hchildren rfl rfl rfl) .nil
termination_by structural m => m

/-- The parts of a child of a reached element are bound at its sites. -/
theorem Child.bound (path address : List Nat) (start : Nat) (owner : Element)
    (h : Reached e root path address start owner) (hvoid : isVoidTag owner.tag.text = false)
    (before : List Child) :
    ∀ (c : Child) (after : List Child), owner.children = before ++ c :: after →
      List.Forall₂ (BoundAt e root)
        (partsOf (c.pieces path (before.filter Child.isElement).length
          (start + childrenMarkers before)))
        (c.sites address before.length)
  | .text raw, _, _ => by
    rw [Child.pieces, partsOf_textPieces]
    exact .nil
  | .markup m, after, hchildren =>
    Markup.bound path address start owner h hvoid before m after hchildren
  | .expr _, _, hchildren => .cons (h.marker hvoid hchildren rfl rfl rfl) .nil
  | .empty, _, _ => .nil
  | .spread _, _, hchildren => .cons (h.marker hvoid hchildren rfl rfl rfl) .nil
termination_by structural c => c

/-- The parts of the children of a reached element are bound at their sites. -/
theorem childrenBound (path address : List Nat) (start : Nat) (owner : Element)
    (h : Reached e root path address start owner) (hvoid : isVoidTag owner.tag.text = false)
    (before : List Child) :
    ∀ children : List Child, owner.children = before ++ children →
      List.Forall₂ (BoundAt e root)
        (partsOf (childrenPieces path (before.filter Child.isElement).length
          (start + childrenMarkers before) children))
        (childrenSites address before.length children)
  | [], _ => .nil
  | child :: children, hchildren => by
    have hchild := Child.bound path address start owner h hvoid before child children hchildren
    have hrest := childrenBound path address start owner h hvoid (before ++ [child]) children
      (by simpa using hchildren)
    rw [childrenPieces_cons, partsOf_append, childrenSites]
    refine List.rel_append hchild ?_
    -- One more child is done: all three counters have moved over it.
    rw [List.filter_append, List.length_append, List.length_append, List.length_singleton,
      childrenMarkers_append, childrenMarkers, childrenMarkers, Nat.add_zero, ← Nat.add_assoc,
      List.filter_singleton] at hrest
    cases helement : child.isElement with
    | true =>
      rw [helement] at hrest
      exact hrest
    | false =>
      rw [helement] at hrest
      exact hrest
termination_by structural children => children

end

end Syntax

/-! ## Labels -/

namespace Html

mutual

/-- The labels of the elements in a node, in the order of the document. -/
def Node.labels {α : Type} : Node α → List α
  | .element label _ _ children => label :: labelsOf children
  | .text _ | .comment _ => []

/-- The labels of the elements in nodes, in the order of the document. -/
def labelsOf {α : Type} : List (Node α) → List α
  | [] => []
  | node :: nodes => node.labels ++ labelsOf nodes

end

/-- The labels of nodes are gathered node by node. -/
theorem labelsOf_eq_flatMap {α : Type} (nodes : List (Node α)) :
    labelsOf nodes = nodes.flatMap Node.labels := by
  induction nodes with
  | nil => rfl
  | cons node nodes ih => rw [labelsOf, List.flatMap_cons, ih]

/-- Labels are listed one list of nodes after another. -/
theorem labelsOf_append {α : Type} (nodes rest : List (Node α)) :
    labelsOf (nodes ++ rest) = labelsOf nodes ++ labelsOf rest := by
  simp only [labelsOf_eq_flatMap, List.flatMap_append]

/-- Merging texts keeps the labels. -/
theorem labelsOf_mergeTexts {α : Type} (nodes : List (Node α)) :
    labelsOf (mergeTexts nodes) = labelsOf nodes := by
  rw [labelsOf_eq_flatMap, labelsOf_eq_flatMap]
  exact flatMap_mergeTexts (fun _ => rfl) nodes

end Html

namespace Syntax

/-- Two ways that begin with steps to children of one element, and have a way in common, begin with
the same step. -/
theorem index_eq_of_isPrefix {address label : List Nat} {index index' : Nat}
    (h : address ++ [index] <+: label) (h' : address ++ [index'] <+: label) : index = index' := by
  have heq : address ++ [index] = address ++ [index'] :=
    (List.prefix_of_prefix_length_le h h' (by simp)).eq_of_length (by simp)
  simpa using heq

mutual

/-- The labels in an element's node are ways that begin with its address, each once. -/
theorem Element.labels_node (address : List Nat) (next : Nat) :
    ∀ e : Element, (∀ label ∈ (e.node address next).labels, address <+: label) ∧
      (e.node address next).labels.Nodup
  | .mk span tag attributes children => by
    obtain ⟨hextends, hnodup⟩ := labelsOf_childrenNodes address 0 next children
    rw [Element.node, Node.labels]
    split
    · simp [labelsOf]
    · rw [labelsOf_mergeTexts]
      refine ⟨?_, List.nodup_cons.2 ⟨?_, hnodup⟩⟩
      · intro label hlabel
        rcases List.mem_cons.1 hlabel with rfl | hlabel
        · exact List.prefix_rfl
        · obtain ⟨index, -, hindex⟩ := hextends label hlabel
          exact (List.prefix_append address [index]).trans hindex
      · -- A label further down is longer than the address.
        intro hmem
        obtain ⟨index, -, hindex⟩ := hextends address hmem
        have hlength := hindex.length_le
        rw [List.length_append, List.length_singleton] at hlength
        omega

/-- The labels in the nodes of markup begin with its address, each once. -/
theorem Markup.labels_nodes (address : List Nat) (next : Nat) :
    ∀ m : Markup, (∀ label ∈ labelsOf (m.nodes address next), address <+: label) ∧
      (labelsOf (m.nodes address next)).Nodup
  | .element e => by
    obtain ⟨hextends, hnodup⟩ := Element.labels_node address next e
    rw [Markup.nodes]
    split
    · simp [labelsOf, markerNode, Node.labels]
    · rw [labelsOf, labelsOf, List.append_nil]
      exact ⟨hextends, hnodup⟩
  | .fragment _ _ => by simp [Markup.nodes, labelsOf, markerNode, Node.labels]

/-- The labels in the nodes of a child begin with its address, each once. -/
theorem Child.labels_nodes (address : List Nat) (next : Nat) :
    ∀ c : Child, (∀ label ∈ labelsOf (c.nodes address next), address <+: label) ∧
      (labelsOf (c.nodes address next)).Nodup
  | .text raw => by
    rw [Child.nodes]
    split <;> simp [labelsOf, Node.labels]
  | .markup m => Markup.labels_nodes address next m
  | .expr _ => by simp [Child.nodes, labelsOf, markerNode, Node.labels]
  | .empty => by simp [Child.nodes, labelsOf]
  | .spread _ => by simp [Child.nodes, labelsOf, markerNode, Node.labels]

/-- The labels in the nodes of children begin with steps to these children, each once. -/
theorem labelsOf_childrenNodes (address : List Nat) (index next : Nat) :
    ∀ children : List Child,
      (∀ label ∈ labelsOf (childrenNodes address index next children),
        ∃ i, index ≤ i ∧ address ++ [i] <+: label) ∧
      (labelsOf (childrenNodes address index next children)).Nodup
  | [] => by simp [childrenNodes, labelsOf]
  | child :: children => by
    obtain ⟨hfirst, hfirstNodup⟩ := Child.labels_nodes (address ++ [index]) next child
    obtain ⟨hrest, hrestNodup⟩ :=
      labelsOf_childrenNodes address (index + 1) (next + child.markers) children
    rw [childrenNodes, labelsOf_append]
    refine ⟨?_, List.nodup_append.2 ⟨hfirstNodup, hrestNodup, ?_⟩⟩
    · intro label hlabel
      rcases List.mem_append.1 hlabel with hlabel | hlabel
      · exact ⟨index, Nat.le_refl index, hfirst label hlabel⟩
      · obtain ⟨i, hi, hlabel⟩ := hrest label hlabel
        exact ⟨i, by omega, hlabel⟩
    · -- Under this child and under a later one, ways go on with different steps.
      rintro label hlabel _ hlabel' rfl
      obtain ⟨i, hi, hstep⟩ := hrest label hlabel'
      have := index_eq_of_isPrefix (hfirst label hlabel) hstep
      omega

end

/-- In the document that the template of an element is read as, each part is bound at its site, and
each element of the markup has one node at most. -/
theorem Element.parts_bound (e : Element) (next : Nat) :
    (e.hasNames = true →
      parse? (e.skeleton next).templateHtml = some [(e.node [] next).unlabelled]) ∧
    (e.node [] next).labels.Nodup ∧
    List.Forall₂ (BoundAt e (e.node [] next)) (e.skeleton next).parts (e.sites []) := by
  refine ⟨e.read_templateHtml next, (e.labels_node [] next).2, ?_⟩
  rw [e.skeleton_parts]
  exact Element.bound [] [] next e ⟨rfl, rfl⟩

end Syntax

end MarkupCompiler
