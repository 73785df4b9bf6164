import MarkupCompiler.Proofs.HtmlReader
import MarkupCompiler.Proofs.Pieces

/-!
# Templates are read back as the markup

`Element.node` says which document an element stands for: a node for the element itself and for each
element of HTML in it, with its constant attributes; text as it is meant; and a comment for each
part between tags. `Element.template_read_back` shows that the template of the element, read as
HTML, is this document, whatever the text in it, as long as the names of tags and attributes are
names.

The reader keeps the text of an element until a tag or comment comes, so the proof follows what is
still kept. `Adds` says that reading has added nodes to those before, where texts that meet become
one. Each child adds its nodes, and the end tag turns all of them into the children of the element.
-/

namespace MarkupCompiler

open Html

namespace Syntax

/-! ## The document of an element -/

/-- A constant attribute as it stands in a document. -/
def Attribute.constant? : Attribute → Option (String × Option String)
  | .spread _ => none
  | .named name value =>
    if isIgnored name value then none
    else
      match value.constant?.map Constant.attributeText with
      | none | some .omitted => none
      | some .bare => some (htmlName name, none)
      | some (.quoted text) => some (htmlName name, some text)

/-- The comment that marks a place between tags. -/
def markerNode (marker : Nat) : Node (List Nat) := .comment (markerText marker)

mutual

/-- The node of an element, with markers from `next` on. Elements are labelled by the way to them
from the outermost: at each step, the index of a child among all children there. -/
def Element.node (address : List Nat) (next : Nat) : Element → Node (List Nat)
  | .mk _ tag attributes children =>
    .element address tag.text (attributes.filterMap Attribute.constant?)
      (if isVoidTag tag.text then [] else mergeTexts (childrenNodes address 0 next children))

/-- The nodes of markup that is a child. -/
def Markup.nodes (address : List Nat) (next : Nat) : Markup → List (Node (List Nat))
  | .element e => if e.isComponent then [markerNode next] else [e.node address next]
  | .fragment _ _ => [markerNode next]

/-- The nodes of a child. -/
def Child.nodes (address : List Nat) (next : Nat) : Child → List (Node (List Nat))
  | .text raw =>
    let content := Text.decode (Text.clean raw)
    if content.isEmpty then [] else [.text content]
  | .markup m => m.nodes address next
  | .expr _ | .spread _ => [markerNode next]
  | .empty => []

/-- The nodes of children, the first of which has an index, of the element at an address. -/
def childrenNodes (address : List Nat) (index next : Nat) : List Child → List (Node (List Nat))
  | [] => []
  | child :: children =>
    child.nodes (address ++ [index]) next ++
      childrenNodes address (index + 1) (next + child.markers) children

end

/-- Whether the name of an attribute is one. -/
def Attribute.hasName : Attribute → Bool
  | .spread _ => true
  | .named name _ => isName name

mutual

/-- Whether the tags and attributes of an element and of the elements of HTML in it have names. -/
def Element.hasNames : Element → Bool
  | .mk _ tag attributes children =>
    isName tag.text && attributes.all Attribute.hasName && childrenHaveNames children

/-- Whether markup has names where it belongs to the HTML around it. -/
def Markup.hasNames : Markup → Bool
  | .element e => e.isComponent || e.hasNames
  | .fragment _ _ => true

/-- Whether a child has names where it belongs to the HTML around it. -/
def Child.hasNames : Child → Bool
  | .markup m => m.hasNames
  | .text _ | .expr _ | .empty | .spread _ => true

/-- Whether children have names where they belong to the HTML around them. -/
def childrenHaveNames : List Child → Bool
  | [] => true
  | child :: children => child.hasNames && childrenHaveNames children

end

end Syntax

namespace Html

/-! ## Texts that meet -/

/-- Whether a node is a text. -/
def Node.isText {α : Type} : Node α → Bool
  | .text _ => true
  | .element _ _ _ _ | .comment _ => false

/-- Behind a node that is no text, texts are merged for themselves. -/
theorem mergeTexts_cons {α : Type} {node : Node α} (h : node.isText = false)
    (nodes : List (Node α)) : mergeTexts (node :: nodes) = node :: mergeTexts nodes := by
  cases node with
  | text content => cases h
  | element label tag attributes children => rfl
  | comment content => rfl

/-- Two texts that meet are merged like the one text that they make. -/
theorem mergeTexts_text_text {α : Type} (content rest : String) (nodes : List (Node α)) :
    mergeTexts (.text content :: .text rest :: nodes) =
      mergeTexts (.text (content ++ rest) :: nodes) := by
  simp only [mergeTexts]
  split
  -- The text behind the two may meet a third, which both sides append in the end.
  · rename_i more merged hmerged
    split at hmerged
    · cases hmerged
      simp [String.append_assoc]
    · cases hmerged
      rfl
  · rename_i hmerged
    split at hmerged
    · exact absurd rfl (hmerged _ _)
    · exact absurd rfl (hmerged _ _)

/-- Merging texts changes nothing that is gathered from the nodes that are no texts. -/
theorem flatMap_mergeTexts {α β : Type} {f : Node α → List β}
    (h : ∀ content, f (.text content) = []) (nodes : List (Node α)) :
    (mergeTexts nodes).flatMap f = nodes.flatMap f := by
  induction nodes with
  | nil => rfl
  | cons node nodes ih =>
    cases node with
    | text content =>
      rw [List.flatMap_cons, h, List.nil_append, ← ih, mergeTexts]
      split
      · rename_i rest merged hmerged
        rw [hmerged, List.flatMap_cons, List.flatMap_cons, h, h]
      · rw [List.flatMap_cons, h, List.nil_append]
    | element label tag attributes children =>
      rw [mergeTexts_cons rfl, List.flatMap_cons, List.flatMap_cons, ih]
    | comment content => rw [mergeTexts_cons rfl, List.flatMap_cons, List.flatMap_cons, ih]

/-- Kept characters and a text behind them make one text. -/
theorem mergeTexts_textNodes_text (content : List Char) {text : String} (h : text.toList ≠ [])
    (nodes : List (Node Unit)) :
    mergeTexts (textNodes content ++ .text text :: nodes) =
      mergeTexts (textNodes (content ++ text.toList) ++ nodes) := by
  cases content with
  | nil => simp [textNodes, h]
  | cons c content =>
    have hmerge := mergeTexts_text_text (String.ofList (c :: content)) text nodes
    have hjoin : String.ofList (c :: content) ++ text =
        String.ofList (c :: content ++ text.toList) := by
      rw [String.ofList_append, String.ofList_toList]
    rw [hjoin] at hmerge
    exact hmerge

/-- Kept characters stay apart from a node that is no text. -/
theorem mergeTexts_textNodes_cons (content : List Char) {node : Node Unit}
    (h : node.isText = false) (nodes : List (Node Unit)) :
    mergeTexts (textNodes content ++ node :: nodes) =
      textNodes content ++ node :: mergeTexts nodes := by
  cases content with
  | nil => exact mergeTexts_cons h nodes
  | cons c content =>
    cases node with
    | text content => cases h
    | element label tag attributes children => simp [textNodes, mergeTexts]
    | comment content => simp [textNodes, mergeTexts]

/-- Labels are taken off one list of nodes after another. -/
theorem unlabelledAll_append {α : Type} (nodes rest : List (Node α)) :
    unlabelledAll (nodes ++ rest) = unlabelledAll nodes ++ unlabelledAll rest := by
  induction nodes with
  | nil => rfl
  | cons node nodes ih => rw [List.cons_append, unlabelledAll, unlabelledAll, ih, List.cons_append]

/-- Texts are merged in the same way without labels. -/
theorem unlabelledAll_mergeTexts {α : Type} (nodes : List (Node α)) :
    unlabelledAll (mergeTexts nodes) = mergeTexts (unlabelledAll nodes) := by
  induction nodes with
  | nil => rfl
  | cons node nodes ih =>
    cases node with
    | text content =>
      simp only [mergeTexts, unlabelledAll, Node.unlabelled]
      rw [← ih]
      rcases mergeTexts nodes with _ | ⟨first, merged⟩
      · rfl
      · cases first <;> rfl
    | element label tag attributes children =>
      simp only [mergeTexts, unlabelledAll, Node.unlabelled, ih]
    | comment content => simp only [mergeTexts, unlabelledAll, Node.unlabelled, ih]

/-! ## What reading adds -/

/-- Reading goes from kept characters `content` and nodes `nodes` to `content'` and `nodes'`, and
adds `added` on the way: whatever comes behind, texts that meet are merged as if `added` stood
there. -/
def Adds (content : List Char) (nodes : List (Node Unit)) (added : List (Node Unit))
    (content' : List Char) (nodes' : List (Node Unit)) : Prop :=
  ∀ rest, (mergeTexts (textNodes content' ++ rest)).reverse ++ nodes' =
    (mergeTexts (textNodes content ++ (added ++ rest))).reverse ++ nodes

/-- Nothing is added where nothing is read. -/
theorem Adds.refl (content : List Char) (nodes : List (Node Unit)) :
    Adds content nodes [] content nodes := fun _ => rfl

/-- What is read in two goes adds up. -/
theorem Adds.trans {content content₁ content₂ : List Char}
    {nodes nodes₁ nodes₂ added added₁ : List (Node Unit)}
    (h : Adds content nodes added content₁ nodes₁)
    (h₁ : Adds content₁ nodes₁ added₁ content₂ nodes₂) :
    Adds content nodes (added ++ added₁) content₂ nodes₂ := by
  intro rest
  rw [h₁ rest, h (added₁ ++ rest), List.append_assoc]

/-- Characters that are kept add a text. -/
theorem adds_text (content : List Char) (nodes : List (Node Unit)) {text : String}
    (h : text.toList ≠ []) :
    Adds content nodes [.text text] (content ++ text.toList) nodes := by
  intro rest
  rw [List.singleton_append, mergeTexts_textNodes_text content h]

/-- A node that is no text ends the text before it. -/
theorem adds_node (content : List Char) (nodes : List (Node Unit)) {node : Node Unit}
    (h : node.isText = false) :
    Adds content nodes [node] [] (node :: (textNodes content ++ nodes)) := by
  intro rest
  rw [List.singleton_append, mergeTexts_textNodes_cons content h]
  have hsingle : (textNodes content).reverse = textNodes content := by
    unfold textNodes
    split <;> rfl
  have hnone : textNodes [] = [] := rfl
  simp [hsingle, hnone]

/-- When an element ends, its nodes are those that were added since it began. -/
theorem Adds.finish {added nodes : List (Node Unit)} {content : List Char}
    (h : Adds [] [] added content nodes) :
    (textNodes content ++ nodes).reverse = mergeTexts added := by
  have hrest := h []
  have hkept : (mergeTexts (textNodes content)).reverse = textNodes content := by
    unfold textNodes
    split <;> rfl
  have hnone : textNodes [] = [] := rfl
  rw [List.append_nil, hkept, hnone, List.nil_append, List.append_nil, List.append_nil] at hrest
  rw [hrest, List.reverse_reverse]

end Html

open Html.State

namespace Syntax

/-! ## Reading attributes -/

/-- The name of an attribute in HTML is a name. -/
theorem isName_htmlName {name : String} (h : isName name = true) :
    isName (htmlName name) = true := by
  unfold htmlName
  split_ifs
  · decide
  · decide
  · exact h

/-- The constant attributes of an element with names have names. -/
theorem isName_of_mem_constants {attributes : List Attribute}
    (h : attributes.all Attribute.hasName = true) :
    ∀ entry ∈ attributes.filterMap Attribute.constant?, isName entry.1 = true := by
  intro entry hentry
  obtain ⟨a, ha, hconstant⟩ := List.mem_filterMap.1 hentry
  have hname := List.all_eq_true.1 h a ha
  cases a with
  | spread value => cases hconstant
  | named name value =>
    unfold Attribute.constant? at hconstant
    dsimp only at hconstant
    split at hconstant
    · cases hconstant
    · split at hconstant
      · cases hconstant
      · cases hconstant
      · cases hconstant
        exact isName_htmlName hname
      · cases hconstant
        exact isName_htmlName hname

/-- An attribute leaves its constant in the template, if it has one. -/
theorem Attribute.htmlOf_pieces (path : List Nat) (a : Attribute) :
    htmlOf (a.pieces path) = a.constant?.toList.flatMap attributeChars := by
  cases a with
  | spread value => rfl
  | named name value =>
    unfold Attribute.pieces Attribute.constant?
    dsimp only
    split
    · rfl
    · cases hconstant : value.constant? with
      | none => cases value <;> rfl
      | some constant =>
        simp only [constantPieces, Option.map_some]
        cases constant.attributeText with
        | omitted => rfl
        | bare => simp [Piece.templateHtml, attributeChars]
        | quoted text => simp [Piece.templateHtml, attributeChars, Text.escapeAttribute_eq]

/-- Attributes leave their constants in the template. -/
theorem htmlOf_attributes (path : List Nat) (attributes : List Attribute) :
    htmlOf (attributes.flatMap (Attribute.pieces path)) =
      (attributes.filterMap Attribute.constant?).flatMap attributeChars := by
  induction attributes with
  | nil => rfl
  | cons a attributes ih =>
    rw [List.flatMap_cons, htmlOf_append, a.htmlOf_pieces path, ih]
    cases hconstant : a.constant? with
    | none => simp [hconstant]
    | some entry => simp [hconstant]

/-! ## Reading content -/

/-- A marker has no bracket in its text. -/
theorem close_notMem_markerText (marker : Nat) : '>' ∉ (markerText marker).toList := by
  intro h
  -- Behind the number sign stand digits only.
  have hdigits : '>' ∈ Nat.toDigits 10 marker := by
    simpa [markerText, Nat.toString_eq_repr] using h
  have hdigit := Nat.isDigit_of_mem_toDigits (by decide) (by decide) hdigits
  cases hdigit

/-- A marker is read as its comment. -/
theorem run_marker (path : List Nat) (marker : Nat) (value : PartValue) (content : List Char)
    (nodes : List (Node Unit)) (frames : List Frame) :
    ∃ content' nodes',
      (reading content nodes frames).run (htmlOf [.slot ⟨path, .inContent marker, value⟩]) =
        some (reading content' nodes' frames) ∧
      Adds content nodes (unlabelledAll [markerNode marker]) content' nodes' := by
  have hchars : htmlOf [.slot ⟨path, .inContent marker, value⟩] =
      '<' :: '!' :: '-' :: '-' :: ((markerText marker).toList ++ ['-', '-', '>']) := by
    simp [Piece.templateHtml, markerComment]
  have hread := run_comment (close_notMem_markerText marker) content nodes frames
  rw [String.ofList_toList] at hread
  rw [hchars, hread]
  exact ⟨_, _, rfl, adds_node content nodes rfl⟩

/-- Text between tags leaves what it means in the template, escaped. -/
theorem htmlOf_textPieces (raw : String) :
    htmlOf (textPieces raw) =
      (Text.decode (Text.clean raw)).toList.flatMap Text.escapeTextChar := by
  unfold textPieces
  dsimp only
  split
  · rename_i hempty
    rw [String.isEmpty_iff.1 hempty]
    rfl
  · simp [Piece.templateHtml, Text.escapeText_eq]

/-- Text between tags is read as what it means. -/
theorem run_textPieces (raw : String) (address : List Nat) (next : Nat) (content : List Char)
    (nodes : List (Node Unit)) (frames : List Frame) :
    ∃ content' nodes',
      (reading content nodes frames).run (htmlOf (textPieces raw)) =
        some (reading content' nodes' frames) ∧
      Adds content nodes (unlabelledAll ((Child.text raw).nodes address next)) content' nodes' := by
  rw [htmlOf_textPieces, run_text]
  refine ⟨_, _, rfl, ?_⟩
  unfold Child.nodes
  dsimp only
  split
  · -- Text of which nothing is left adds nothing.
    rename_i hempty
    rw [String.isEmpty_iff.1 hempty, String.toList_empty, List.append_nil]
    exact Adds.refl content nodes
  · rename_i hempty
    refine adds_text content nodes ?_
    intro hnil
    exact hempty (String.isEmpty_iff.2 (String.toList_eq_nil_iff.1 hnil))

/-- The characters of an element: its start tag and, unless it is void, its content and end tag. -/
theorem Element.htmlOf_pieces (path : List Nat) (next : Nat) (span : Span) (tag : TagName)
    (attributes : List Attribute) (children : List Child) :
    htmlOf ((Element.mk span tag attributes children).pieces path next) =
      '<' :: (tag.text.toList ++
          ((attributes.filterMap Attribute.constant?).flatMap attributeChars ++ ['>'])) ++
        if isVoidTag tag.text then []
        else htmlOf (childrenPieces path 0 next children) ++
          '<' :: '/' :: (tag.text.toList ++ ['>']) := by
  unfold Element.pieces
  simp only [htmlOf_cons, htmlOf_append, htmlOf_attributes]
  split
  · simp [Piece.templateHtml]
  · simp [Piece.templateHtml]

mutual

/-- An element with names is read as its node. -/
theorem Element.run_pieces (path address : List Nat) (next : Nat) :
    ∀ e : Element, e.hasNames = true → ∀ (content : List Char) (nodes : List (Node Unit))
      (frames : List Frame),
      (reading content nodes frames).run (htmlOf (e.pieces path next)) =
        some (reading [] ((e.node address next).unlabelled :: (textNodes content ++ nodes)) frames)
  | .mk span tag attributes children, h, content, nodes, frames => by
    rw [Element.hasNames, Bool.and_eq_true, Bool.and_eq_true] at h
    obtain ⟨⟨htag, hattributes⟩, hchildren⟩ := h
    have hstart := run_startTag htag (isName_of_mem_constants hattributes) content nodes frames
    rw [Element.htmlOf_pieces, run_append, hstart, Option.bind_some, Element.node]
    by_cases hvoid : isVoidTag tag.text = true
    · -- A void element is complete with its start tag.
      rw [if_pos hvoid, if_pos hvoid, run_nil, State.opened, if_pos hvoid]
      rfl
    · have hopened : State.opened ⟨.bracket, textNodes content ++ nodes, frames⟩
          ⟨tag.text, attributes.filterMap Attribute.constant?⟩ =
          reading [] [] (⟨⟨tag.text, attributes.filterMap Attribute.constant?⟩,
            textNodes content ++ nodes⟩ :: frames) := if_neg hvoid
      -- The content is read into a frame of its own, and the end tag takes what was added there.
      obtain ⟨content₁, nodes₁, hrun, hadds⟩ := run_childrenPieces path address 0 0 next children
        hchildren [] [] (⟨⟨tag.text, attributes.filterMap Attribute.constant?⟩,
          textNodes content ++ nodes⟩ :: frames)
      have hend := run_endTag_of_tag htag content₁ nodes₁
        (attributes.filterMap Attribute.constant?) (textNodes content ++ nodes) frames
      rw [if_neg hvoid, if_neg hvoid, hopened, run_append, hrun, Option.bind_some, hend,
        hadds.finish, Node.unlabelled, unlabelledAll_mergeTexts]

/-- Markup with names is read as its nodes. -/
theorem Markup.run_pieces (path address : List Nat) (index next : Nat) :
    ∀ m : Markup, m.hasNames = true → ∀ (content : List Char) (nodes : List (Node Unit))
      (frames : List Frame), ∃ content' nodes',
      (reading content nodes frames).run (htmlOf (m.pieces path index next)) =
        some (reading content' nodes' frames) ∧
      Adds content nodes (unlabelledAll (m.nodes address next)) content' nodes'
  | .element e, h, content, nodes, frames => by
    rw [Markup.hasNames, Bool.or_eq_true] at h
    unfold Markup.pieces Markup.nodes
    by_cases hcomponent : e.isComponent = true
    · rw [if_pos hcomponent, if_pos hcomponent]
      exact run_marker path next _ content nodes frames
    · have hnames := h.resolve_left hcomponent
      rw [if_neg hcomponent, if_neg hcomponent]
      rw [Element.run_pieces (path ++ [index]) address next e hnames content nodes frames]
      refine ⟨_, _, rfl, adds_node content nodes ?_⟩
      obtain ⟨span, tag, attributes, children⟩ := e
      rfl
  | .fragment span children, _, content, nodes, frames =>
    run_marker path next _ content nodes frames

/-- A child with names is read as its nodes. -/
theorem Child.run_pieces (path address : List Nat) (index next : Nat) :
    ∀ c : Child, c.hasNames = true → ∀ (content : List Char) (nodes : List (Node Unit))
      (frames : List Frame), ∃ content' nodes',
      (reading content nodes frames).run (htmlOf (c.pieces path index next)) =
        some (reading content' nodes' frames) ∧
      Adds content nodes (unlabelledAll (c.nodes address next)) content' nodes'
  | .text raw, _, content, nodes, frames => run_textPieces raw address next content nodes frames
  | .markup m, h, content, nodes, frames =>
    Markup.run_pieces path address index next m h content nodes frames
  | .expr _, _, content, nodes, frames => run_marker path next _ content nodes frames
  | .empty, _, content, nodes, _ => ⟨content, nodes, rfl, Adds.refl content nodes⟩
  | .spread _, _, content, nodes, frames => run_marker path next _ content nodes frames

/-- Children with names are read as their nodes. -/
theorem run_childrenPieces (path address : List Nat) (index number next : Nat) :
    ∀ children : List Child, childrenHaveNames children = true →
      ∀ (content : List Char) (nodes : List (Node Unit)) (frames : List Frame),
      ∃ content' nodes',
        (reading content nodes frames).run (htmlOf (childrenPieces path index next children)) =
          some (reading content' nodes' frames) ∧
        Adds content nodes (unlabelledAll (childrenNodes address number next children)) content'
          nodes'
  | [], _, content, nodes, _ => ⟨content, nodes, rfl, Adds.refl content nodes⟩
  | child :: children, h, content, nodes, frames => by
    rw [childrenHaveNames, Bool.and_eq_true] at h
    obtain ⟨content₁, nodes₁, hrun₁, hadds₁⟩ :=
      Child.run_pieces path (address ++ [number]) index next child h.1 content nodes frames
    obtain ⟨content₂, nodes₂, hrun₂, hadds₂⟩ := run_childrenPieces path address
      (if child.isElement then index + 1 else index) (number + 1) (next + child.markers) children
      h.2 content₁ nodes₁ frames
    refine ⟨content₂, nodes₂, ?_, ?_⟩
    · rw [childrenPieces_cons, htmlOf_append, run_append, hrun₁, Option.bind_some, hrun₂]
    · rw [childrenNodes, unlabelledAll_append]
      exact hadds₁.trans hadds₂

end

/-- The template of an element with names is read as its node alone. -/
theorem Element.read_templateHtml (e : Element) (next : Nat) (h : e.hasNames = true) :
    parse? (e.skeleton next).templateHtml = some [(e.node [] next).unlabelled] := by
  have hrun := e.run_pieces [] [] next h [] [] []
  rw [← e.skeleton_templateHtml next] at hrun
  have hstart : reading [] [] [] = ⟨.content [], [], []⟩ := rfl
  rw [hstart] at hrun
  rw [parse?, hrun]
  rfl

end Syntax

/-! ## Comments -/

namespace Html

mutual

/-- The texts of the comments in a node, in the order of the document. -/
def Node.comments {α : Type} : Node α → List String
  | .element _ _ _ children => commentsOf children
  | .text _ => []
  | .comment content => [content]

/-- The texts of the comments in nodes, in the order of the document. -/
def commentsOf {α : Type} : List (Node α) → List String
  | [] => []
  | node :: nodes => node.comments ++ commentsOf nodes

end

/-- The comments of nodes are gathered node by node. -/
theorem commentsOf_eq_flatMap {α : Type} (nodes : List (Node α)) :
    commentsOf nodes = nodes.flatMap Node.comments := by
  induction nodes with
  | nil => rfl
  | cons node nodes ih => rw [commentsOf, List.flatMap_cons, ih]

end Html

namespace Syntax

/-- The marker of a part between tags. -/
def Part.marker? (part : Part) : Option Nat :=
  match part.place with
  | .inTag _ => none
  | .inContent marker => some marker

/-- The texts of the markers of pieces, in order. -/
def markersOf (pieces : List Piece) : List String :=
  ((partsOf pieces).filterMap Part.marker?).map markerText

/-- Markers stand in the order of the pieces. -/
theorem markersOf_append (pieces rest : List Piece) :
    markersOf (pieces ++ rest) = markersOf pieces ++ markersOf rest := by
  simp [markersOf]

/-- The parts of attributes have no markers. -/
theorem markersOf_attributes (path : List Nat) (attributes : List Attribute) :
    markersOf (attributes.flatMap (Attribute.pieces path)) = [] := by
  induction attributes with
  | nil => rfl
  | cons a attributes ih =>
    have ha : markersOf (a.pieces path) = [] := by
      rw [markersOf]
      rcases a.partsOf_pieces path with hnone | ⟨name, value, -, hone⟩
      · rw [hnone]
        rfl
      · rw [hone]
        rfl
    rw [List.flatMap_cons, markersOf_append, ha, ih, List.nil_append]

mutual

/-- The comments of an element's node are the markers of its parts between tags. -/
theorem Element.comments_node (path address : List Nat) (next : Nat) :
    ∀ e : Element, (e.node address next).comments = markersOf (e.pieces path next)
  | .mk span tag attributes children => by
    have hattributes := markersOf_attributes path attributes
    have hchildren := commentsOf_childrenNodes path address 0 0 next children
    have hcons (text : String) (pieces : List Piece) :
        markersOf (.html text :: pieces) = markersOf pieces := rfl
    rw [Element.node, Node.comments, Element.pieces, hcons, markersOf_append, hattributes, hcons,
      List.nil_append]
    split
    · rfl
    · rw [commentsOf_eq_flatMap, flatMap_mergeTexts (fun _ => rfl), ← commentsOf_eq_flatMap,
        hchildren, markersOf_append, hcons]
      simp [markersOf]

/-- The comments of the nodes of markup are the markers of its parts between tags. -/
theorem Markup.comments_nodes (path address : List Nat) (index next : Nat) :
    ∀ m : Markup, commentsOf (m.nodes address next) = markersOf (m.pieces path index next)
  | .element e => by
    have he := Element.comments_node (path ++ [index]) address next e
    unfold Markup.nodes Markup.pieces
    split
    · rfl
    · rw [commentsOf, commentsOf, List.append_nil, he]
  | .fragment _ _ => rfl

/-- The comments of the nodes of a child are the markers of its parts between tags. -/
theorem Child.comments_nodes (path address : List Nat) (index next : Nat) :
    ∀ c : Child, commentsOf (c.nodes address next) = markersOf (c.pieces path index next)
  | .text raw => by
    rw [Child.pieces, markersOf, partsOf_textPieces, Child.nodes]
    split <;> rfl
  | .markup m => Markup.comments_nodes path address index next m
  | .expr _ => rfl
  | .empty => rfl
  | .spread _ => rfl

/-- The comments of the nodes of children are the markers of their parts between tags. -/
theorem commentsOf_childrenNodes (path address : List Nat) (index number next : Nat) :
    ∀ children : List Child, commentsOf (childrenNodes address number next children) =
      markersOf (childrenPieces path index next children)
  | [] => rfl
  | child :: children => by
    have hchild := Child.comments_nodes path (address ++ [number]) index next child
    have hrest := commentsOf_childrenNodes path address
      (if child.isElement then index + 1 else index) (number + 1) (next + child.markers) children
    rw [commentsOf_eq_flatMap] at hchild hrest
    rw [commentsOf_eq_flatMap, childrenNodes, List.flatMap_append, hchild, hrest,
      childrenPieces_cons, markersOf_append]

end

/-- The template of an element with names is read as the document that the element stands for, which
has a comment for each part between tags, with the marker of that part. -/
theorem Element.template_read_back (e : Element) (next : Nat) (h : e.hasNames = true) :
    parse? (e.skeleton next).templateHtml = some [(e.node [] next).unlabelled] ∧
      (e.node [] next).comments =
        ((e.skeleton next).parts.filterMap Part.marker?).map markerText := by
  refine ⟨e.read_templateHtml next h, ?_⟩
  rw [e.skeleton_parts]
  exact e.comments_node [] [] next

/-- The element `<p className="a&b" hidden key="k">x &lt; y<br/>{v}{/**/}<b>{w}</b></p>`. -/
def notice : Element :=
  .mk ⟨0, 70⟩ (.plain "p")
    [.named "className" (.text "a&b"), .named "hidden" .bare, .named "key" (.text "k")]
    [.text "x &lt; y", .markup (.element (.mk ⟨42, 47⟩ (.plain "br") [] [])),
      .expr (.ident ⟨48, 49⟩ "v"), .empty,
      .markup (.element (.mk ⟨56, 66⟩ (.plain "b") [] [.expr (.ident ⟨60, 61⟩ "w")]))]

/-- The notice with markers from three on: its template, and that it is read back. -/
theorem Element.template_read_back_notice :
    (notice.skeleton 3).templateHtml =
        "<p class=\"a&amp;b\" hidden>x &lt; y<br><!--#3--><b><!--#4--></b></p>" ∧
      parse? (notice.skeleton 3).templateHtml = some [(notice.node [] 3).unlabelled] ∧
      (notice.node [] 3).comments =
        ((notice.skeleton 3).parts.filterMap Part.marker?).map markerText :=
  ⟨by decide +kernel, notice.template_read_back 3 (by decide +kernel)⟩

end Syntax

end MarkupCompiler
