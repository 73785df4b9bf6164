import MarkupCompiler.Proofs.RawText
import MarkupCompiler.Proofs.Slots
import MarkupCompiler.Proofs.ValueScope

/-!
# Markers in raw text

A part between tags is marked by a comment in the template, and the code of an element looks for
that comment in a clone of the template. `Element.contentAt` says what the content of the element at
a path is read as. In raw text a comment is text like any other, so a marker there is not found
(`marker_found_iff_outside_rawText`). There is a title whose code looks for such a marker
(`title_marker_is_text`).

The proof follows the reader through the pieces of the template. Outside raw text an element is read
as a node that has the comments of its markers (`Element.read_pieces`). In raw text the pieces are
kept (`Element.inert_pieces`), as long as no element there has the tag whose end tag the reader
waits for, since raw text would end too early then (`Element.rawTextEnds`).
-/

namespace MarkupCompiler

open Html Html.State

namespace Syntax

/-! ## Content along a path -/

/-- What the content of the element at a path is read as, in the template of an element that stands
in content read as `outer`. -/
def Element.contentAt (outer : Content) : List Nat → Element → Content
  | [], e => outer.inside e.tag.text
  | index :: path, e =>
    match e.nested[index]? with
    | some child => child.contentAt (outer.inside e.tag.text) path
    | none => outer.inside e.tag.text

/-- In raw text there is raw text at the end of every path. -/
theorem Element.isRaw_contentAt {outer : Content} (h : outer.isRaw = true) (path : List Nat)
    (e : Element) : (e.contentAt outer path).isRaw = true := by
  induction path generalizing outer e with
  | nil => exact Content.isRaw_inside h _
  | cons index path ih =>
    rw [Element.contentAt]
    split
    · exact ih (Content.isRaw_inside h _) _
    · exact Content.isRaw_inside h _

variable {base : List Nat} {part : Part} {name : List Char} {tag : String} {parts : List Part}
  {root : Element} {marker : Nat}

/-- The content along a path that goes on from an element is the content along the rest of the path,
for an element in some content. -/
theorem Element.exists_contentAt_append {e owner : Element} (h : e.atPath base = some owner)
    (outer : Content) :
    ∃ around, ∀ rest, e.contentAt outer (base ++ rest) = owner.contentAt around rest := by
  induction base generalizing e outer with
  | nil =>
    cases h
    exact ⟨outer, fun _ => rfl⟩
  | cons index base ih =>
    rw [Element.atPath, Option.bind_eq_some_iff] at h
    obtain ⟨child, hchild, howner⟩ := h
    obtain ⟨around, haround⟩ := ih howner (outer.inside e.tag.text)
    refine ⟨around, fun rest => ?_⟩
    rw [List.cons_append, Element.contentAt, hchild]
    exact haround rest

/-- Below an element with raw text there is raw text. -/
theorem Element.isRaw_contentAt_append {e owner : Element} (h : e.atPath base = some owner)
    {outer : Content} (hraw : (e.contentAt outer base).isRaw = true) (rest : List Nat) :
    (e.contentAt outer (base ++ rest)).isRaw = true := by
  obtain ⟨around, haround⟩ := Element.exists_contentAt_append h outer
  have hbase := haround []
  rw [List.append_nil, Element.contentAt] at hbase
  rw [hbase] at hraw
  rw [haround rest]
  cases rest with
  | nil => exact hraw
  | cons index rest =>
    rw [Element.contentAt]
    split
    · exact Element.isRaw_contentAt hraw rest _
    · exact hraw

/-- The content of an element one step further is what it is inside the content before. -/
theorem Element.contentAt_snoc {e child : Element} {index : Nat}
    (h : e.atPath (base ++ [index]) = some child) (outer : Content) :
    e.contentAt outer (base ++ [index]) = (e.contentAt outer base).inside child.tag.text := by
  rw [Element.atPath_append, Option.bind_eq_some_iff] at h
  obtain ⟨owner, howner, hchild⟩ := h
  obtain ⟨around, haround⟩ := Element.exists_contentAt_append howner outer
  have hbase := haround []
  rw [List.append_nil] at hbase
  rw [haround, hbase, Element.contentAt, Element.contentAt]
  cases hnested : owner.nested[index]? with
  | none =>
    rw [Element.atPath, hnested] at hchild
    cases hchild
  | some first =>
    rw [Element.atPath, hnested] at hchild
    cases hchild
    rfl

/-! ## Parts below a path -/

/-- The parts of an element belong to elements below its path. -/
theorem HasPart.isPrefix_path {path : List Nat} {attributes : List Attribute}
    {children : List Child} (h : HasPart path attributes children part) : path <+: part.path := by
  induction h with
  | inTag | inContent => exact List.prefix_rfl
  | nested _ _ ih => exact (List.prefix_append _ _).trans ih

/-! ## Raw text that ends where its element does -/

mutual

/-- Whether the raw text of each element of a template ends with the end tag of that element: no
element in the raw text has the same tag. -/
def Element.rawTextEnds (outer : Content) : Element → Bool
  | .mk _ tag _ children =>
    isVoidTag tag.text ||
      if (outer.inside tag.text).isRaw then
        (childrenElements children).all fun d =>
          Content.lowered d.tag.text.toList != Content.lowered tag.text.toList
      else childrenRawTextEnds (outer.inside tag.text) children

/-- Whether raw text ends where its element does, in markup that belongs to the HTML around it. -/
def Markup.rawTextEnds (outer : Content) : Markup → Bool
  | .element e => e.isComponent || e.rawTextEnds outer
  | .fragment _ _ => true

/-- Whether raw text ends where its element does, in a child that belongs to the HTML around it. -/
def Child.rawTextEnds (outer : Content) : Child → Bool
  | .markup m => m.rawTextEnds outer
  | .text _ | .expr _ | .empty | .spread _ => true

/-- Whether raw text ends where its element does, in children in the HTML around them. -/
def childrenRawTextEnds (outer : Content) : List Child → Bool
  | [] => true
  | child :: children => child.rawTextEnds outer && childrenRawTextEnds outer children

end

/-! ## Templates in raw text -/

/-- A name has no bracket that opens a tag. -/
theorem open_notMem_of_isName {name : String} (h : isName name = true) : '<' ∉ name.toList := by
  rw [isName, Bool.and_eq_true] at h
  exact fun hmem => ne_of_isNameChar (List.all_eq_true.1 h.2 _ hmem) rfl rfl

/-- The characters of a marker. -/
theorem htmlOf_marker (path : List Nat) (marker : Nat) (value : PartValue) :
    htmlOf [.slot ⟨path, .inContent marker, value⟩] =
      '<' :: '!' :: '-' :: '-' :: ((markerText marker).toList ++ ['-', '-', '>']) := by
  simp [Piece.templateHtml, markerComment]

/-- A marker has one bracket that opens. -/
theorem open_notMem_marker (marker : Nat) :
    '<' ∉ '!' :: '-' :: '-' :: ((markerText marker).toList ++ ['-', '-', '>']) := by
  simp [open_notMem_markerText]

/-- A marker is kept in raw text. -/
theorem inert_marker (hname : '>' ∉ name) (path : List Nat) (marker : Nat) (value : PartValue) :
    Inert name (htmlOf [.slot ⟨path, .inContent marker, value⟩]) := by
  rw [htmlOf_marker]
  exact inert_bracket hname (open_notMem_marker marker) (by simp) (misses_of_head? (by simp))

/-- Text between tags is kept in raw text. -/
theorem inert_textPieces (hname : '>' ∉ name) (raw : String) :
    Inert name (htmlOf (textPieces raw)) := by
  rw [htmlOf_textPieces]
  exact inert_of_notMem hname fun h => ne_lt_of_mem_escapeText h rfl

/-- A start tag is kept in raw text. -/
theorem inert_startTag (hname : '>' ∉ name) (htag : isName tag = true)
    {attributes : List (String × Option String)}
    (hnames : ∀ entry ∈ attributes, isName entry.1 = true) :
    Inert name ('<' :: (tag.toList ++ (attributes.flatMap attributeChars ++ ['>']))) := by
  have hbrackets := open_notMem_startTag (open_notMem_of_isName htag)
    fun entry hentry => open_notMem_of_isName (hnames entry hentry)
  refine inert_bracket hname hbrackets (by simp) (misses_of_head? ?_)
  obtain ⟨c, rest, hchars, hc, -⟩ := exists_cons_of_isName htag
  rw [hchars]
  intro hslash
  cases hslash
  cases hc

/-- An end tag is kept in raw text that ends with another name. -/
theorem inert_endTag (hname : '>' ∉ name) (htag : isName tag = true)
    (hne : Content.lowered tag.toList ≠ name) :
    Inert name ('<' :: '/' :: (tag.toList ++ ['>'])) := by
  have hchars := htag
  rw [isName, Bool.and_eq_true] at hchars
  refine inert_bracket hname ?_ (by simp) (misses_endTag hchars.2 hne)
  simp [open_notMem_of_isName htag]

mutual

/-- An element is kept in raw text that ends with a name that no element in it has. -/
theorem Element.inert_pieces (hname : '>' ∉ name) (path : List Nat) (next : Nat) :
    ∀ e : Element, e.hasNames = true →
      (∀ d ∈ e.elements, Content.lowered d.tag.text.toList ≠ name) →
      Inert name (htmlOf (e.pieces path next))
  | .mk span tag attributes children, hnames, htags => by
    rw [Element.hasNames, Bool.and_eq_true, Bool.and_eq_true] at hnames
    rw [Element.elements, List.forall_mem_cons] at htags
    have hstart := inert_startTag hname hnames.1.1 (isName_of_mem_constants hnames.1.2)
    rw [Element.htmlOf_pieces]
    by_cases hvoid : isVoidTag tag.text = true
    · rw [if_pos hvoid, List.append_nil]
      exact hstart
    · rw [if_neg hvoid] at htags
      rw [if_neg hvoid]
      have hchildren := inert_childrenPieces hname path 0 next children hnames.2 htags.2
      exact hstart.append (hchildren.append (inert_endTag hname hnames.1.1 htags.1))

/-- Markup is kept in raw text that ends with a name that no element in it has. -/
theorem Markup.inert_pieces (hname : '>' ∉ name) (path : List Nat) (index next : Nat) :
    ∀ m : Markup, m.hasNames = true →
      (∀ d ∈ m.elements, Content.lowered d.tag.text.toList ≠ name) →
      Inert name (htmlOf (m.pieces path index next))
  | .element e, hnames, htags => by
    rw [Markup.hasNames, Bool.or_eq_true] at hnames
    rw [Markup.elements] at htags
    rw [Markup.pieces]
    by_cases hcomponent : e.isComponent = true
    · rw [if_pos hcomponent]
      exact inert_marker hname path next _
    · rw [if_neg hcomponent] at htags
      rw [if_neg hcomponent]
      exact Element.inert_pieces hname (path ++ [index]) next e
        (hnames.resolve_left hcomponent) htags
  | .fragment _ _, _, _ => inert_marker hname path next _

/-- A child is kept in raw text that ends with a name that no element in it has. -/
theorem Child.inert_pieces (hname : '>' ∉ name) (path : List Nat) (index next : Nat) :
    ∀ c : Child, c.hasNames = true →
      (∀ d ∈ c.elements, Content.lowered d.tag.text.toList ≠ name) →
      Inert name (htmlOf (c.pieces path index next))
  | .text raw, _, _ => inert_textPieces hname raw
  | .markup m, hnames, htags => Markup.inert_pieces hname path index next m hnames htags
  | .expr _, _, _ => inert_marker hname path next _
  | .empty, _, _ => inert_nil name
  | .spread _, _, _ => inert_marker hname path next _

/-- Children are kept in raw text that ends with a name that no element in them has. -/
theorem inert_childrenPieces (hname : '>' ∉ name) (path : List Nat) (index next : Nat) :
    ∀ children : List Child, childrenHaveNames children = true →
      (∀ d ∈ childrenElements children, Content.lowered d.tag.text.toList ≠ name) →
      Inert name (htmlOf (childrenPieces path index next children))
  | [], _, _ => inert_nil name
  | child :: children, hnames, htags => by
    rw [childrenHaveNames, Bool.and_eq_true] at hnames
    obtain ⟨hfirst, hrest⟩ := forall_mem_childrenElements_cons htags
    rw [childrenPieces_cons, htmlOf_append]
    exact (Child.inert_pieces hname path index next child hnames.1 hfirst).append
      (inert_childrenPieces hname path _ _ children hnames.2 hrest)

end

/-! ## Markers outside raw text -/

/-- Whether a part belongs to an element without raw text. -/
def Element.shows (root : Element) (part : Part) : Bool := !(root.contentAt .html part.path).isRaw

/-- The texts of the markers of parts outside raw text. -/
def Element.shown (root : Element) (parts : List Part) : List String :=
  (markersIn (parts.filter root.shows)).map markerText

/-- Parts are shown one by one. -/
theorem Element.shown_append (root : Element) (parts rest : List Part) :
    root.shown (parts ++ rest) = root.shown parts ++ root.shown rest := by
  simp [Element.shown]

/-- Parts without markers show none. -/
theorem Element.shown_of_markersIn (root : Element) (h : markersIn parts = []) :
    root.shown parts = [] := by
  have hsublist : (markersIn (parts.filter root.shows)).Sublist (markersIn parts) :=
    List.filter_sublist.filterMap _
  rw [h, List.sublist_nil] at hsublist
  rw [Element.shown, hsublist, List.map_nil]

/-- In raw text no marker is shown. -/
theorem Element.shown_of_isRaw (h : ∀ part ∈ parts, (root.contentAt .html part.path).isRaw = true) :
    root.shown parts = [] := by
  have hnone : parts.filter root.shows = [] := by
    rw [List.filter_eq_nil_iff]
    intro part hpart hshows
    rw [Element.shows, h part hpart] at hshows
    cases hshows
  rw [Element.shown, hnone]
  rfl

/-- A marker outside raw text is shown. -/
theorem Element.shown_marker {path : List Nat} (h : (root.contentAt .html path).isRaw = false)
    (marker : Nat) (value : PartValue) :
    root.shown (partsOf [.slot ⟨path, .inContent marker, value⟩]) = [markerText marker] := by
  have hshows : root.shows ⟨path, .inContent marker, value⟩ = true := by
    rw [Element.shows, h]
    rfl
  have hparts : partsOf [.slot ⟨path, .inContent marker, value⟩] =
      [⟨path, .inContent marker, value⟩] := rfl
  rw [Element.shown, hparts, List.filter_cons_of_pos hshows]
  rfl

/-- An element shows the markers between its tags. -/
theorem Element.shown_pieces (root : Element) (path : List Nat) (next : Nat) (span : Span)
    (tag : TagName) (attributes : List Attribute) (children : List Child) :
    root.shown (partsOf ((Element.mk span tag attributes children).pieces path next)) =
      if isVoidTag tag.text then []
      else root.shown (partsOf (childrenPieces path 0 next children)) := by
  have hattributes := root.shown_of_markersIn (markersIn_attributes path attributes)
  rw [Element.pieces, partsOf_html, partsOf_append, partsOf_html, Element.shown_append,
    hattributes, List.nil_append]
  split
  · rfl
  · rw [partsOf_append, partsOf_html, partsOf_nil, List.append_nil]

/-! ## Reading a template -/

/-- Behind a node and kept text, the comments of the node come last. -/
theorem commentsOf_reverse_cons (node : Node Unit) (content : List Char)
    (nodes : List (Node Unit)) :
    commentsOf (node :: (textNodes content ++ nodes)).reverse =
      commentsOf nodes.reverse ++ node.comments := by
  have htext : (textNodes content).reverse.flatMap Node.comments = [] := by
    unfold textNodes
    split <;> rfl
  simp [commentsOf_eq_flatMap, htext]

/-- Kept text has no comments. -/
theorem commentsOf_reverse_textNodes (content : List Char) (nodes : List (Node Unit)) :
    commentsOf (textNodes content ++ nodes).reverse = commentsOf nodes.reverse := by
  have hlast := commentsOf_reverse_cons (.text "") content nodes
  simpa [commentsOf_eq_flatMap, Node.comments] using hlast

/-- The reader comes to the element at a path of a template, which is not in raw text. -/
structure Element.Reached (root : Element) (base : List Nat) (frames : List Frame) (e : Element) :
    Prop where
  atPath : root.atPath base = some e
  names : e.hasNames = true
  ends : e.rawTextEnds (contentOf frames) = true
  plain : (contentOf frames).isRaw = false
  content : root.contentAt .html base = (contentOf frames).inside e.tag.text

/-- The reader comes to children of the element at a path, which has no raw text. The elements among
them are counted from `index` on. -/
structure Element.Within (root : Element) (base : List Nat) (frames : List Frame) (index : Nat)
    (children : List Child) : Prop where
  atPath : ∀ position child, (children.filterMap Child.element?)[position]? = some child →
    root.atPath (base ++ [index + position]) = some child
  names : childrenHaveNames children = true
  ends : childrenRawTextEnds (contentOf frames) children = true
  plain : (contentOf frames).isRaw = false
  content : root.contentAt .html base = contentOf frames

section

variable {root : Element} {base : List Nat} {frames : List Frame} {index : Nat}

variable {children : List Child}

/-- The reader comes to the first child by itself. -/
theorem Element.Within.head {child : Child}
    (h : root.Within base frames index (child :: children)) :
    root.Within base frames index [child] := by
  obtain ⟨hpath, hnames, hends, hplain, hcontent⟩ := h
  rw [childrenHaveNames, Bool.and_eq_true] at hnames
  rw [childrenRawTextEnds, Bool.and_eq_true] at hends
  refine ⟨fun position e he => hpath position e ?_, ?_, ?_, hplain, hcontent⟩
  · obtain ⟨hlt, rfl⟩ := List.getElem?_eq_some_iff.1 he
    rw [← List.singleton_append, List.filterMap_append, List.getElem?_append_left hlt,
      List.getElem?_eq_getElem hlt]
  · rw [childrenHaveNames, hnames.1]
    rfl
  · rw [childrenRawTextEnds, hends.1]
    rfl

/-- Behind the first child the reader comes to the others. -/
theorem Element.Within.tail {child : Child}
    (h : root.Within base frames index (child :: children)) :
    root.Within base frames (if child.isElement then index + 1 else index) children := by
  obtain ⟨hpath, hnames, hends, hplain, hcontent⟩ := h
  rw [childrenHaveNames, Bool.and_eq_true] at hnames
  rw [childrenRawTextEnds, Bool.and_eq_true] at hends
  refine ⟨fun position e he => ?_, hnames.2, hends.2, hplain, hcontent⟩
  rw [child.isElement_eq]
  cases helement : child.element? with
  | none =>
    refine hpath position e ?_
    rw [List.filterMap_cons_none helement]
    exact he
  | some first =>
    have hnext := hpath (position + 1) e (by
      rw [List.filterMap_cons_some helement, List.getElem?_cons_succ]
      exact he)
    rw [← Nat.add_assoc, Nat.add_right_comm] at hnext
    exact hnext

/-- The reader comes to an element of HTML that is a child. -/
theorem Element.Within.reached {e : Element}
    (h : root.Within base frames index [.markup (.element e)])
    (hcomponent : ¬ e.isComponent = true) : root.Reached (base ++ [index]) frames e := by
  obtain ⟨hpath, hnames, hends, hplain, hcontent⟩ := h
  have hnow : root.atPath (base ++ [index]) = some e :=
    hpath 0 e (by simp [Child.element?, hcomponent])
  refine ⟨hnow, ?_, ?_, hplain, ?_⟩
  · simpa [childrenHaveNames, Child.hasNames, Markup.hasNames, hcomponent] using hnames
  · simpa [childrenRawTextEnds, Child.rawTextEnds, Markup.rawTextEnds, hcomponent] using hends
  · rw [Element.contentAt_snoc hnow, hcontent]

/-- Behind the start tag of an element without raw text the reader comes to its children. -/
theorem Element.Reached.within {span : Span} {tag : TagName} {attributes : List Attribute}
    {children : List Child} (h : root.Reached base frames (.mk span tag attributes children))
    (hvoid : ¬ isVoidTag tag.text = true) (frame : Frame) (hframe : frame.start.tag = tag.text)
    (hraw : ¬ ((contentOf frames).inside tag.text).isRaw = true) :
    root.Within base (frame :: frames) 0 children := by
  obtain ⟨hpath, hnames, hends, -, hcontent⟩ := h
  have hinside : contentOf (frame :: frames) = (contentOf frames).inside tag.text := by
    rw [contentOf, hframe]
  rw [Element.hasNames, Bool.and_eq_true] at hnames
  rw [Element.rawTextEnds, Bool.or_eq_true, if_neg hraw] at hends
  refine ⟨fun position child hchild => ?_, hnames.2, ?_, ?_, ?_⟩
  · have hnested : (Element.mk span tag attributes children).nested =
        children.filterMap Child.element? := if_neg hvoid
    rw [Element.atPath_append, hpath, Option.bind_some, Nat.zero_add, Element.atPath, hnested,
      hchild]
    rfl
  · rw [hinside]
    exact hends.resolve_left hvoid
  · rw [hinside]
    exact Bool.eq_false_iff.2 hraw
  · rw [hcontent, hinside]
    rfl

/-- The children of an element with raw text are kept in it. -/
theorem Element.Reached.inert_children {span : Span} {tag : TagName} {attributes : List Attribute}
    (h : root.Reached base frames (.mk span tag attributes children))
    (hvoid : ¬ isVoidTag tag.text = true) (hraw : ((contentOf frames).inside tag.text).isRaw = true)
    (next : Nat) :
    Inert (Content.lowered tag.text.toList) (htmlOf (childrenPieces base 0 next children)) := by
  have hnames := h.names
  rw [Element.hasNames, Bool.and_eq_true] at hnames
  have hends := h.ends
  rw [Element.rawTextEnds, Bool.or_eq_true, if_pos hraw, List.all_eq_true] at hends
  exact inert_childrenPieces (Content.close_notMem_of_isRaw_inside h.plain hraw) base 0 next
    children hnames.2 fun d hd => bne_iff_ne.1 (hends.resolve_left hvoid d hd)

/-- The children of an element with raw text show no markers. -/
theorem Element.Reached.shown_children {span : Span} {tag : TagName} {attributes : List Attribute}
    (h : root.Reached base frames (.mk span tag attributes children))
    (hraw : ((contentOf frames).inside tag.text).isRaw = true) {next : Nat} :
    root.shown (partsOf (childrenPieces base 0 next children)) = [] := by
  refine Element.shown_of_isRaw fun part hpart => ?_
  obtain ⟨rest, hrest⟩ := (hasPart_children base 0 next children part hpart).isPrefix_path
  rw [← hrest]
  refine Element.isRaw_contentAt_append h.atPath ?_ rest
  rw [h.content]
  exact hraw

end

/-- A start tag is read as the plain reader reads it. -/
theorem read_startTag (htag : isName tag = true) {attributes : List (String × Option String)}
    (hnames : ∀ entry ∈ attributes, isName entry.1 = true) (content : List Char)
    (nodes : List (Node Unit)) (frames : List Frame) :
    Reader.run ⟨reading content nodes frames, none⟩
        ('<' :: (tag.toList ++ (attributes.flatMap attributeChars ++ ['>']))) =
      some (Reader.settle
        (State.opened ⟨.bracket, textNodes content ++ nodes, frames⟩ ⟨tag, attributes⟩)) := by
  have hbrackets := open_notMem_startTag (open_notMem_of_isName htag)
    fun entry hentry => open_notMem_of_isName (hnames entry hentry)
  refine Reader.run_of_run (run_startTag htag hnames content nodes frames) ?_ hbrackets
  unfold State.opened
  split <;> rfl

/-- Outside raw text a marker is read as its comment. -/
theorem read_marker {frames : List Frame} (hplain : (root.contentAt .html base).isRaw = false)
    (marker : Nat) (value : PartValue) (content : List Char) (nodes : List (Node Unit)) :
    ∃ content' nodes',
      Reader.run ⟨reading content nodes frames, none⟩
          (htmlOf [.slot ⟨base, .inContent marker, value⟩]) =
        some ⟨reading content' nodes' frames, none⟩ ∧
      commentsOf nodes'.reverse = commentsOf nodes.reverse ++
        root.shown (partsOf [.slot ⟨base, .inContent marker, value⟩]) := by
  have hread := run_comment (close_notMem_markerText marker) content nodes frames
  rw [String.ofList_toList] at hread
  refine ⟨[], .comment (markerText marker) :: (textNodes content ++ nodes), ?_, ?_⟩
  · rw [htmlOf_marker, Reader.run_of_run hread rfl (open_notMem_marker marker),
      Reader.settle_of_nodes (List.cons_ne_nil _ _)]
  · rw [commentsOf_reverse_cons, Element.shown_marker hplain]
    rfl

mutual

/-- An element is read as a node that has the comments of the markers outside raw text. -/
theorem Element.read_pieces (base : List Nat) (next : Nat) :
    ∀ (e : Element) (frames : List Frame), root.Reached base frames e →
      ∀ (content : List Char) (nodes : List (Node Unit)), ∃ node,
        Reader.run ⟨reading content nodes frames, none⟩ (htmlOf (e.pieces base next)) =
          some ⟨reading [] (node :: (textNodes content ++ nodes)) frames, none⟩ ∧
        node.comments = root.shown (partsOf (e.pieces base next))
  | .mk span tag attributes children, frames, h, content, nodes => by
    have hnames := h.names
    rw [Element.hasNames, Bool.and_eq_true, Bool.and_eq_true] at hnames
    obtain ⟨⟨htag, hattributes⟩, -⟩ := hnames
    have hstart := read_startTag htag (isName_of_mem_constants hattributes) content nodes frames
    rw [Element.htmlOf_pieces, Element.shown_pieces, Reader.run_append, hstart, Option.bind_some]
    by_cases hvoid : isVoidTag tag.text = true
    · -- A void element is complete with its start tag.
      rw [if_pos hvoid, if_pos hvoid, State.opened, if_pos hvoid,
        Reader.settle_of_nodes (List.cons_ne_nil _ _)]
      exact ⟨.element () tag.text _ [], rfl, rfl⟩
    · have hopened : State.opened ⟨.bracket, textNodes content ++ nodes, frames⟩
          ⟨tag.text, attributes.filterMap Attribute.constant?⟩ =
          reading [] [] (⟨⟨tag.text, attributes.filterMap Attribute.constant?⟩,
            textNodes content ++ nodes⟩ :: frames) := if_neg hvoid
      rw [if_neg hvoid, if_neg hvoid, hopened]
      by_cases hraw : ((contentOf frames).inside tag.text).isRaw = true
      · -- All that stands in raw text is kept, up to the end tag of the element.
        obtain ⟨text, hrun⟩ := Reader.run_rawText htag h.plain hraw
          (h.inert_children hvoid hraw next) (attributes.filterMap Attribute.constant?)
          (textNodes content ++ nodes)
        refine ⟨_, hrun, ?_⟩
        rw [h.shown_children hraw, Node.comments]
        have hnone := commentsOf_reverse_textNodes text []
        rw [List.append_nil, reverse_textNodes] at hnone
        exact hnone
      · -- The children are read in the element, and its end tag closes it.
        have hwithin := h.within hvoid ⟨⟨tag.text, attributes.filterMap Attribute.constant?⟩,
          textNodes content ++ nodes⟩ rfl hraw
        obtain ⟨content₁, nodes₁, hrun, hcomments⟩ :=
          read_childrenPieces base 0 next children _ hwithin [] []
        have hend := run_endTag_of_tag htag content₁ nodes₁
          (attributes.filterMap Attribute.constant?) (textNodes content ++ nodes) frames
        have hbracket : '<' ∉ '/' :: (tag.text.toList ++ ['>']) := by
          simp [open_notMem_of_isName htag]
        refine ⟨.element () tag.text (attributes.filterMap Attribute.constant?)
          (textNodes content₁ ++ nodes₁).reverse, ?_, ?_⟩
        · rw [Reader.settle_of_frames hwithin.plain, Reader.run_append, hrun, Option.bind_some,
            Reader.run_of_run hend rfl hbracket, Reader.settle_of_nodes (List.cons_ne_nil _ _)]
        · rw [Node.comments, commentsOf_reverse_textNodes, hcomments]
          rfl

/-- Markup is read as nodes that have the comments of the markers outside raw text. -/
theorem Markup.read_pieces (base : List Nat) (index next : Nat) :
    ∀ (m : Markup) (frames : List Frame), root.Within base frames index [.markup m] →
      ∀ (content : List Char) (nodes : List (Node Unit)), ∃ content' nodes',
        Reader.run ⟨reading content nodes frames, none⟩ (htmlOf (m.pieces base index next)) =
          some ⟨reading content' nodes' frames, none⟩ ∧
        commentsOf nodes'.reverse =
          commentsOf nodes.reverse ++ root.shown (partsOf (m.pieces base index next))
  | .element e, frames, h, content, nodes => by
    rw [Markup.pieces]
    by_cases hcomponent : e.isComponent = true
    · rw [if_pos hcomponent]
      exact read_marker (h.content ▸ h.plain) next _ content nodes
    · rw [if_neg hcomponent]
      obtain ⟨node, hrun, hcomments⟩ :=
        Element.read_pieces (base ++ [index]) next e frames (h.reached hcomponent) content nodes
      exact ⟨_, _, hrun, by rw [commentsOf_reverse_cons, hcomments]⟩
  | .fragment _ _, _, h, content, nodes =>
    read_marker (h.content ▸ h.plain) next _ content nodes

/-- A child is read as nodes that have the comments of the markers outside raw text. -/
theorem Child.read_pieces (base : List Nat) (index next : Nat) :
    ∀ (c : Child) (frames : List Frame), root.Within base frames index [c] →
      ∀ (content : List Char) (nodes : List (Node Unit)), ∃ content' nodes',
        Reader.run ⟨reading content nodes frames, none⟩ (htmlOf (c.pieces base index next)) =
          some ⟨reading content' nodes' frames, none⟩ ∧
        commentsOf nodes'.reverse =
          commentsOf nodes.reverse ++ root.shown (partsOf (c.pieces base index next))
  | .text raw, frames, h, content, nodes => by
    rw [Child.pieces, htmlOf_textPieces, partsOf_textPieces, Reader.run_text h.plain]
    exact ⟨_, _, rfl, (List.append_nil _).symm⟩
  | .markup m, frames, h, content, nodes =>
    Markup.read_pieces base index next m frames h content nodes
  | .expr _, _, h, content, nodes => read_marker (h.content ▸ h.plain) next _ content nodes
  | .empty, _, _, content, nodes => ⟨content, nodes, rfl, (List.append_nil _).symm⟩
  | .spread _, _, h, content, nodes => read_marker (h.content ▸ h.plain) next _ content nodes

/-- Children are read as nodes that have the comments of the markers outside raw text. -/
theorem read_childrenPieces (base : List Nat) (index next : Nat) :
    ∀ (children : List Child) (frames : List Frame), root.Within base frames index children →
      ∀ (content : List Char) (nodes : List (Node Unit)), ∃ content' nodes',
        Reader.run ⟨reading content nodes frames, none⟩
            (htmlOf (childrenPieces base index next children)) =
          some ⟨reading content' nodes' frames, none⟩ ∧
        commentsOf nodes'.reverse = commentsOf nodes.reverse ++
          root.shown (partsOf (childrenPieces base index next children))
  | [], _, _, content, nodes => ⟨content, nodes, rfl, (List.append_nil _).symm⟩
  | child :: children, frames, h, content, nodes => by
    obtain ⟨content₁, nodes₁, hrun₁, hcomments₁⟩ :=
      Child.read_pieces base index next child frames h.head content nodes
    obtain ⟨content₂, nodes₂, hrun₂, hcomments₂⟩ :=
      read_childrenPieces base _ (next + child.markers) children frames h.tail content₁ nodes₁
    refine ⟨content₂, nodes₂, ?_, ?_⟩
    · rw [childrenPieces_cons, htmlOf_append, Reader.run_append, hrun₁, Option.bind_some, hrun₂]
    · rw [childrenPieces_cons, partsOf_append, Element.shown_append, hcomments₂, hcomments₁,
        List.append_assoc]

end

/-- The template of an element is read as one node, with a comment for each marker outside raw
text. -/
theorem Element.read_template (e : Element) (next : Nat) (hnames : e.hasNames = true)
    (hends : e.rawTextEnds .html = true) :
    ∃ node, read? (e.skeleton next).templateHtml = some [node] ∧
      node.comments = e.shown (e.skeleton next).parts := by
  obtain ⟨node, hrun, hcomments⟩ :=
    Element.read_pieces [] next e [] ⟨rfl, hnames, hends, rfl, rfl⟩ [] []
  rw [← e.skeleton_templateHtml next] at hrun
  have hstart : reading [] [] [] = ⟨.content [], [], []⟩ := rfl
  rw [hstart] at hrun
  refine ⟨node, ?_, ?_⟩
  · rw [read?, hrun]
    rfl
  · rw [hcomments, e.skeleton_parts]

/-! ## Markers that are looked for -/

/-- Parts whose markers differ are told apart by them. -/
theorem eq_of_marker? (hnodup : (markersIn parts).Nodup) {first second : Part}
    (hfirst : first ∈ parts) (hsecond : second ∈ parts) (hmarker : first.marker? = some marker)
    (hsame : second.marker? = some marker) : first = second := by
  have hmem : ∀ {part : Part} {rest : List Part}, part ∈ rest → part.marker? = some marker →
      marker ∈ markersIn rest := fun hpart h => List.mem_filterMap.2 ⟨_, hpart, h⟩
  induction parts with
  | nil => cases hfirst
  | cons part parts ih =>
    have hsplit : markersIn (part :: parts) = markersIn [part] ++ markersIn parts :=
      markersIn_append [part] parts
    rw [hsplit, List.nodup_append] at hnodup
    have hapart : part.marker? = some marker → marker ∉ markersIn parts := fun h hrest =>
      hnodup.2.2 marker (hmem (.head _) h) marker hrest rfl
    rcases List.mem_cons.1 hfirst with rfl | hlater
    · rcases List.mem_cons.1 hsecond with rfl | hlater'
      · rfl
      · exact absurd (hmem hlater' hsame) (hapart hmarker)
    · rcases List.mem_cons.1 hsecond with rfl | hlater'
      · exact absurd (hmem hlater hmarker) (hapart hsame)
      · exact ih hnodup.2.1 hlater hlater'

/-- The marker of a part is shown exactly if the part is not in raw text. -/
theorem Element.mem_shown_iff (e : Element) (next : Nat) (hpart : part ∈ (e.skeleton next).parts)
    (hmarker : part.marker? = some marker) :
    markerText marker ∈ e.shown (e.skeleton next).parts ↔
      (e.contentAt .html part.path).isRaw = false := by
  have hnodup : (markersIn (e.skeleton next).parts).Nodup := by
    rw [e.markersIn_skeleton]
    exact List.nodup_range'
  have hshows : e.shows part = true ↔ (e.contentAt .html part.path).isRaw = false := by
    rw [Element.shows, Bool.not_eq_true']
  rw [← hshows, Element.shown, List.mem_map_of_injective markerText_injective]
  constructor
  · intro h
    obtain ⟨other, hother, hsame⟩ := List.mem_filterMap.1 h
    obtain ⟨hmem, hshown⟩ := List.mem_filter.1 hother
    rw [eq_of_marker? hnodup hpart hmem hmarker hsame]
    exact hshown
  · intro h
    exact List.mem_filterMap.2 ⟨part, List.mem_filter.2 ⟨hpart, h⟩, hmarker⟩

/-- The call that looks for a marker in a clone. -/
def markerSearch (marker : Nat) : String :=
  "_$findMarker(_root$, " ++ Text.quote (markerText marker) ++ ")"

/-- Each part between tags has a line that looks for its marker. -/
theorem exists_markerSearch (hpart : part ∈ parts) (hplace : part.place = .inContent marker)
    (template : String) (settings insertions : List String) :
    ∃ line ∈ Emitters.blockLines template parts settings insertions,
      StandsIn (markerSearch marker) line := by
  have hcontent : part ∈ parts.filter (!·.isAttribute) := by
    refine List.mem_filter.2 ⟨hpart, ?_⟩
    rw [← part.isSome_marker?, Part.marker?, hplace]
    rfl
  rw [← List.zipIdx_map_fst 0 (parts.filter (!·.isAttribute))] at hcontent
  obtain ⟨entry, hentry, rfl⟩ := List.mem_map.1 hcontent
  have hline := List.mem_map_of_mem (f := fun entry => Emitters.markerLine entry.1 entry.2) hentry
  refine ⟨Emitters.markerLine entry.1 entry.2, ?_,
    "const " ++ Emitters.markerName entry.2 ++ " = ", ";", ?_⟩
  · simp only [Emitters.blockLines, List.mem_append]
    exact .inl (.inl (.inl (.inr hline)))
  · have hid : entry.1.point.markerId = markerText marker := by
      unfold Part.point BindingPoint.markerId
      rw [hplace]
      rfl
    have hcall : " = _$findMarker(_root$, " = " = " ++ "_$findMarker(_root$, " := by decide
    have hclose : ");" = ")" ++ ";" := by decide
    unfold Emitters.markerLine Emitters.searchLine markerSearch
    rw [hid, hcall, hclose]
    simp only [String.append_assoc]

/-- The template of an element is read as one node, whose comments are the markers of the parts
outside raw text. The code of the element clones this template and looks for the marker of each part
between tags, and the marker is there exactly if the part does not belong to an element with raw
text. -/
theorem marker_found_iff_outside_rawText (e : Element) (env : Env) (table table' : TemplateTable)
    (code : String) (hcomponent : e.isComponent = false) (hnames : e.hasNames = true)
    (hends : e.rawTextEnds .html = true) (hclient : env.options.isServer = false)
    (hrun : (emitMarkup (.element e)).runFrom env table = (.ok code, table')) :
    ∃ node, read? (e.skeleton 0).templateHtml = some [node] ∧
      node.comments = e.shown (e.skeleton 0).parts ∧
      ∀ part ∈ (e.skeleton 0).parts, ∀ marker, part.place = .inContent marker →
        (∃ lines, code = "(() => \x7b\n" ++ Emitters.blockText lines ++ "\x7d)()" ∧
          lines.head? = some ("const _root$ = _$clone(" ++
            (table.intern (e.skeleton 0).templateHtml).1 ++ ");") ∧
          ∃ line ∈ lines, StandsIn (markerSearch marker) line) ∧
        (markerText marker ∈ node.comments ↔ (e.contentAt .html part.path).isRaw = false) := by
  obtain ⟨node, hread, hcomments⟩ := e.read_template 0 hnames hends
  refine ⟨node, hread, hcomments, fun part hpart marker hplace => ⟨?_, ?_⟩⟩
  · have hstatic := Element.isStatic_eq_false_of_mem hpart
    obtain ⟨settings, insertions, _, hcode, -⟩ :=
      exists_blockLines hcomponent hstatic hclient hrun
    exact ⟨_, hcode, rfl, exists_markerSearch hpart hplace _ settings insertions⟩
  · have hmarker : part.marker? = some marker := by rw [Part.marker?, hplace]
    rw [hcomments]
    exact e.mem_shown_iff 0 hpart hmarker

/-- The element `<div><title>{x}</title>{y}</div>`. -/
def titledPage : Element :=
  .mk ⟨0, 32⟩ (.plain "div") []
    [.markup (.element (.mk ⟨5, 23⟩ (.plain "title") [] [.expr (.ident ⟨13, 14⟩ "x")])),
      .expr (.ident ⟨24, 25⟩ "y")]

/-- Of the two markers of the page, the one in the title is not found, and the other one is. -/
theorem marker_found_iff_outside_rawText_titledPage :
    ∃ node, read? "<div><title><!--#0--></title><!--#1--></div>" = some [node] ∧
      "#0" ∉ node.comments ∧ "#1" ∈ node.comments := by
  obtain ⟨code, table', hrun⟩ : ∃ code table',
      (emitMarkup (.element titledPage)).runFrom ⟨[], {}⟩ {} = (.ok code, table') := ⟨_, _, rfl⟩
  obtain ⟨node, hread, -, hparts⟩ := marker_found_iff_outside_rawText titledPage ⟨[], {}⟩ {} table'
    code (by decide) (by decide +kernel) (by decide +kernel) (by decide) hrun
  have hhtml : (titledPage.skeleton 0).templateHtml =
      "<div><title><!--#0--></title><!--#1--></div>" := by decide +kernel
  have hfirst := hparts ⟨[0], .inContent 0, .expr (.ident ⟨13, 14⟩ "x")⟩ (.head _) 0 rfl
  have hsecond := hparts ⟨[], .inContent 1, .expr (.ident ⟨24, 25⟩ "y")⟩
    (List.mem_cons_of_mem _ (.head _)) 1 rfl
  rw [hhtml] at hread
  refine ⟨node, hread, fun hfound => ?_, hsecond.2.2 (by decide +kernel)⟩
  have hraw : (titledPage.contentAt .html [0]).isRaw = true := by decide +kernel
  exact absurd (hfirst.2.1 hfound) (by rw [hraw]; decide)

end Syntax

/-! ## A marker that is not there -/

/-- A title that shows a value. -/
def titleSource : String := "<title>\x7bx\x7d</title>"

/-- The code of the title: its marker is looked for between the tags. -/
def titleCode : String :=
  "import \x7b template as _$template, clone as _$clone, insert as _$insert, " ++
  "findMarker as _$findMarker \x7d from \"sprig/dom\";\n" ++
  "const _tmpl$0 = _$template(\"<title><!--#0--></title>\");\n" ++
  "(() => \x7b\n  const _root$ = _$clone(_tmpl$0);\n" ++
  "  const _m$0 = _$findMarker(_root$, \"#0\");\n" ++
  "  _$insert(_m$0.parentNode, x, _m$0);\n  return _root$;\n\x7d)()"

/-- A title that shows a value compiles to code that looks for a marker, but its template is read as
a title with the text of that marker and no comment. -/
theorem title_marker_is_text :
    compile titleSource "a.jsx" {} = .ok (some titleCode) ∧
      read? "<title><!--#0--></title>" =
        some [.element () "title" [] [.text "<!--#0-->"]] ∧
      (Node.element () "title" [] [.text "<!--#0-->"]).comments = [] := by
  exact ⟨eq_ok_of_toOption (by decide +kernel), rfl, rfl⟩

end MarkupCompiler
