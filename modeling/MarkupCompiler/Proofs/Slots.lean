import Mathlib.Data.List.Chain
import Mathlib.Data.List.Forall2
import Mathlib.Data.List.Nodup
import MarkupCompiler.Proofs.StaticElements
import MarkupCompiler.Proofs.TemplateTree

/-!
# Slots, parts and markers

A skeleton is made in one walk, in which pieces, parts and markers grow side by side. What is said
of them here is kept by every push (`Skeleton.Numbered.push`, `Skeleton.isChain_apart_push`).
`slots_parts_markers` says how they hang together: each part has one slot, numbered by the part's
place among the parts; the parts between tags, and no others, have markers, which are numbered
through from the first; and in the template a comment opens for each of these markers and nowhere
else. So the markers of all elements that share a counter are told apart by their texts.

The last point rests on the escapes. A bracket that opens a tag or comment is never part of a text
or of the value of an attribute, so each bracket of a template begins a start tag, an end tag or a
marker, and what follows it there decides which (`openings_bracket`).
-/

namespace MarkupCompiler

open Html Html.State

namespace Syntax

/-! ## Slots -/

/-- The slot of a part stands in a tag if the part is an attribute, and between tags otherwise. -/
theorem Skeleton.Numbered.slot_of_part {skeleton : Skeleton} (hnumbered : skeleton.Numbered)
    {index : Nat} {part : Part} (h : skeleton.parts[index]? = some part) :
    (.inTag index ∈ skeleton.outline ↔ part.isAttribute = true) ∧
      (.inContent index ∈ skeleton.outline ↔ part.isAttribute = false) := by
  have htag : (Outline.inTag index).slot? = some index := rfl
  have hcontent : (Outline.inContent index).slot? = some index := rfl
  rw [hnumbered.mem_outline_iff htag, hnumbered.mem_outline_iff hcontent, h]
  cases hplace : part.isAttribute <;> simp [Part.outline, hplace]

/-! ## Neighbours -/

/-- One of two pieces is a slot. -/
def Outline.Apart (first second : Outline) : Prop :=
  first.slot?.isSome = true ∨ second.slot?.isSome = true

/-- Of two neighbours one is still a slot when HTML is added. -/
theorem isChain_apart_appendHtml {text : String} {outline : List Outline}
    (h : outline.IsChain Outline.Apart) : (appendHtml text outline).IsChain Outline.Apart := by
  fun_induction appendHtml text outline with
  | case1 => exact .singleton _
  | case2 last => exact .singleton _
  | case3 piece rest hlast ih =>
    rw [List.isChain_cons] at h
    refine (ih h.2).cons fun next hnext => ?_
    -- What comes next is as before, apart from its text, or is the text that is added.
    fun_cases appendHtml text rest with
    | case1 =>
      cases piece with
      | html last => exact absurd rfl (hlast last rfl)
      | _ => exact .inl rfl
    | case2 last =>
      rw [appendHtml] at hnext
      cases hnext
      exact h.1 (.html last) rfl
    | case3 first others _ =>
      rw [appendHtml] at hnext
      cases hnext
      exact h.1 _ rfl
      assumption

/-- Of two neighbours one is still a slot when a piece is pushed. -/
theorem Skeleton.isChain_apart_push {skeleton : Skeleton}
    (h : skeleton.outline.IsChain Outline.Apart) (piece : Piece) :
    (skeleton.push piece).outline.IsChain Outline.Apart := by
  cases piece with
  | html text => exact isChain_apart_appendHtml h
  | slot part =>
    refine h.append (.singleton _) fun _ _ next hnext => .inr ?_
    obtain rfl := Option.some.inj hnext
    rw [part.slot?_outline, Option.isSome_some]

/-- Of two neighbours in the outline of an element, one is a slot. -/
theorem Element.isChain_apart_outline (e : Element) (next : Nat) :
    (e.skeleton next).outline.IsChain Outline.Apart :=
  List.foldlRecOn (motive := fun skeleton : Skeleton => skeleton.outline.IsChain Outline.Apart)
    (e.pieces [] next) Skeleton.push .nil fun _ h piece _ => Skeleton.isChain_apart_push h piece

/-! ## Markers -/

/-- The markers of parts, in order. -/
def markersIn (parts : List Part) : List Nat := parts.filterMap Part.marker?

/-- Markers stand in the order of the parts. -/
@[simp]
theorem markersIn_append (parts rest : List Part) :
    markersIn (parts ++ rest) = markersIn parts ++ markersIn rest := List.filterMap_append

/-- A part has a marker exactly if it is no attribute. -/
theorem Part.isSome_marker? (part : Part) : part.marker?.isSome = !part.isAttribute := by
  obtain ⟨path, name | marker, value⟩ := part <;> rfl

/-- There are as many markers as pieces are counted to have. -/
theorem markerCount_eq_length (pieces : List Piece) :
    markerCount pieces = (markersIn (partsOf pieces)).length := by
  induction pieces with
  | nil => rfl
  | cons piece pieces ih =>
    cases piece with
    | html text => exact ih
    | slot part =>
      obtain ⟨path, name | marker, value⟩ := part
      · rw [markerCount, ih]
        exact Nat.zero_add _
      · rw [markerCount, ih]
        exact Nat.add_comm _ _

/-- Attributes have no markers. -/
theorem markersIn_attributes (path : List Nat) (attributes : List Attribute) :
    markersIn (partsOf (attributes.flatMap (Attribute.pieces path))) = [] := by
  rw [← List.length_eq_zero_iff, ← markerCount_eq_length, markerCount_attributes]

mutual

/-- The markers of an element are numbered through from `next` on. -/
theorem Element.markersIn_pieces (path : List Nat) (next : Nat) :
    ∀ e : Element, markersIn (partsOf (e.pieces path next)) = List.range' next e.markers
  | .mk _ tag attributes children => by
    have hchildren := markersIn_childrenPieces path 0 next children
    rw [Element.pieces, partsOf_html, partsOf_append, partsOf_html, markersIn_append,
      markersIn_attributes, List.nil_append, Element.markers]
    split
    · rfl
    · rw [partsOf_append, markersIn_append, hchildren]
      exact List.append_nil _

/-- The markers of markup are numbered through from `next` on. -/
theorem Markup.markersIn_pieces (path : List Nat) (index next : Nat) :
    ∀ m : Markup, markersIn (partsOf (m.pieces path index next)) = List.range' next m.markers
  | .element e => by
    have he := Element.markersIn_pieces (path ++ [index]) next e
    unfold Markup.pieces Markup.markers
    split
    · rfl
    · exact he
  | .fragment _ _ => rfl

/-- The markers of a child are numbered through from `next` on. -/
theorem Child.markersIn_pieces (path : List Nat) (index next : Nat) :
    ∀ c : Child, markersIn (partsOf (c.pieces path index next)) = List.range' next c.markers
  | .text raw => by
    rw [Child.pieces, partsOf_textPieces]
    rfl
  | .markup m => Markup.markersIn_pieces path index next m
  | .expr _ => rfl
  | .empty => rfl
  | .spread _ => rfl

/-- The markers of children are numbered through from `next` on. -/
theorem markersIn_childrenPieces (path : List Nat) (index next : Nat) :
    ∀ children : List Child, markersIn (partsOf (childrenPieces path index next children)) =
      List.range' next (childrenMarkers children)
  | [] => rfl
  | child :: children => by
    -- The others are numbered where the first child left off, so the two ranges make one.
    rw [childrenPieces_cons, partsOf_append, markersIn_append,
      Child.markersIn_pieces path index next child, markersIn_childrenPieces _ _ _ children,
      List.range'_append_1, childrenMarkers]

end

/-- The markers of a skeleton are numbered through from `next` on. -/
theorem Element.markersIn_skeleton (e : Element) (next : Nat) :
    markersIn (e.skeleton next).parts = List.range' next (e.skeleton next).markers := by
  have hcount : (e.skeleton next).markers = (markersIn (e.skeleton next).parts).length := by
    rw [← e.partsOf_skeleton_pieces]
    exact markerCount_eq_length _
  rw [hcount, e.skeleton_parts, e.markersIn_pieces, List.length_range']

/-- Markers with the same text are the same. -/
theorem markerText_injective : Function.Injective markerText := numbered_injective "#"

/-- The skeletons of elements that share one counter: the markers of an element are numbered from
where those of the element before it left off. -/
def skeletons (next : Nat) : List Element → List Skeleton
  | [] => []
  | e :: elements =>
    e.skeleton next :: skeletons (next + (e.skeleton next).markers) elements

/-- The markers of elements that share one counter are numbered through. -/
theorem exists_markersIn_skeletons (next : Nat) (elements : List Element) :
    ∃ count, markersIn ((skeletons next elements).flatMap Skeleton.parts) =
      List.range' next count := by
  induction elements generalizing next with
  | nil => exact ⟨0, rfl⟩
  | cons e elements ih =>
    obtain ⟨count, hcount⟩ := ih (next + (e.skeleton next).markers)
    refine ⟨(e.skeleton next).markers + count, ?_⟩
    rw [skeletons, List.flatMap_cons, markersIn_append, e.markersIn_skeleton, hcount,
      List.range'_append_1]

/-! ## Comments that open in a template -/

/-- The characters that a comment opens with. -/
def commentOpener : List Char := ['<', '!', '-', '-']

/-- What is left of a text at each place where a comment opens. -/
def openings : List Char → List (List Char)
  | [] => []
  | c :: text =>
    if commentOpener.isPrefixOf (c :: text) then (c :: text) :: openings text else openings text

variable {text : List Char} {attributes : List Attribute}

/-- A text without brackets opens no comment. -/
theorem openings_append (h : '<' ∉ text) (rest : List Char) :
    openings (text ++ rest) = openings rest := by
  induction text with
  | nil => rfl
  | cons c text ih =>
    rw [List.mem_cons, not_or] at h
    rw [List.cons_append, openings, ih h.2]
    simp [commentOpener, h.1]

/-- A bracket that no exclamation mark follows opens no comment, nor does the text behind it. -/
theorem openings_bracket (h : '<' ∉ text) {first : Char} (hfirst : text.head? = some first)
    (hmark : first ≠ '!') (rest : List Char) :
    openings ('<' :: (text ++ rest)) = openings rest := by
  rw [openings, openings_append h]
  cases text with
  | nil => cases hfirst
  | cons c text =>
    cases hfirst
    simp [commentOpener, hmark.symm]

/-- A marker has no bracket behind the one that it opens with. -/
theorem open_notMem_markerText (marker : Nat) : '<' ∉ (markerText marker).toList := by
  intro h
  have hdigits : '<' ∈ Nat.toDigits 10 marker := by
    simpa [markerText, Nat.toString_eq_repr] using h
  cases Nat.isDigit_of_mem_toDigits (by decide) (by decide) hdigits

/-- A marker opens one comment. -/
theorem openings_markerComment (marker : Nat) (rest : List Char) :
    openings ((markerComment marker).toList ++ rest) =
      ((markerComment marker).toList ++ rest) :: openings rest := by
  have hchars : (markerComment marker).toList = '<' :: ('!' :: '-' :: '-' ::
      ((markerText marker).toList ++ ['-', '-', '>'])) := by
    simp [markerComment]
  have hrest : '<' ∉ '!' :: '-' :: '-' :: ((markerText marker).toList ++ ['-', '-', '>']) := by
    simp [open_notMem_markerText]
  rw [hchars, List.cons_append, openings, openings_append hrest]
  rfl

/-- Whether a name has neither of the characters that tell a comment from a tag. -/
def lacksOpener (name : String) : Bool := !name.toList.contains '<' && !name.toList.contains '!'

/-- Whether the name of an attribute opens no comment. -/
def Attribute.lacksOpener : Attribute → Bool
  | .spread _ => true
  | .named name _ => Syntax.lacksOpener name

/-- Whether the names in the start tag of an element open no comment. -/
def Element.lacksOpener (e : Element) : Bool :=
  Syntax.lacksOpener e.tag.text && e.attributes.all Attribute.lacksOpener

/-- A name opens no comment without `<` and `!`. -/
theorem lacksOpener_iff {name : String} :
    lacksOpener name = true ↔ '<' ∉ name.toList ∧ '!' ∉ name.toList := by
  simp [lacksOpener]

/-- An escaped attribute value has no bracket that opens a tag. -/
theorem open_notMem_escapeAttribute (text : List Char) :
    '<' ∉ text.flatMap Text.escapeAttributeChar := by
  intro h
  obtain ⟨c, -, hc⟩ := List.mem_flatMap.1 h
  unfold Text.escapeAttributeChar at hc
  split_ifs at hc with hamp hquot hlt
  · simp at hc
  · simp at hc
  · simp at hc
  · exact hlt (beq_iff_eq.2 (List.mem_singleton.1 hc).symm)

/-- An attribute has no bracket if its name has none. -/
theorem open_notMem_attributeChars {entry : String × Option String}
    (h : '<' ∉ entry.1.toList) : '<' ∉ attributeChars entry := by
  obtain ⟨name, value⟩ := entry
  cases value with
  | none => simpa [attributeChars] using h
  | some value =>
    have hvalue := open_notMem_escapeAttribute value.toList
    simp [attributeChars, h, hvalue]

/-- A start tag has no bracket behind the one that it opens with, if its names have none. -/
theorem open_notMem_startTag {tag : List Char} (htag : '<' ∉ tag)
    {attributes : List (String × Option String)}
    (hnames : ∀ entry ∈ attributes, '<' ∉ entry.1.toList) :
    '<' ∉ tag ++ (attributes.flatMap attributeChars ++ ['>']) := by
  have hattributes : '<' ∉ attributes.flatMap attributeChars := by
    intro h
    obtain ⟨entry, hentry, hmem⟩ := List.mem_flatMap.1 h
    exact open_notMem_attributeChars (hnames entry hentry) hmem
  simp [htag, hattributes]

/-- A constant attribute has the name of an attribute, as it stands in HTML. -/
theorem exists_of_mem_constants {entry : String × Option String}
    (h : entry ∈ attributes.filterMap Attribute.constant?) :
    ∃ name value, .named name value ∈ attributes ∧ entry.1 = htmlName name := by
  obtain ⟨a, ha, hconstant⟩ := List.mem_filterMap.1 h
  cases a with
  | spread value => cases hconstant
  | named name value =>
    refine ⟨name, value, ha, ?_⟩
    unfold Attribute.constant? at hconstant
    dsimp only at hconstant
    split at hconstant
    · cases hconstant
    · split at hconstant <;> cases hconstant <;> rfl

/-- The name of an attribute in HTML opens no comment if the name does not. -/
theorem lacksOpener_htmlName {name : String} (h : lacksOpener name = true) :
    lacksOpener (htmlName name) = true := by
  unfold htmlName
  split_ifs
  · decide
  · decide
  · exact h

/-- The constant attributes of an element whose names open no comment have no brackets in their
names. -/
theorem open_notMem_of_mem_constants (h : attributes.all Attribute.lacksOpener = true) :
    ∀ entry ∈ attributes.filterMap Attribute.constant?, '<' ∉ entry.1.toList := by
  intro entry hentry
  obtain ⟨name, value, ha, hname⟩ := exists_of_mem_constants hentry
  have hlacks : lacksOpener name = true := List.all_eq_true.1 h _ ha
  rw [hname]
  exact (lacksOpener_iff.1 (lacksOpener_htmlName hlacks)).1

/-- A start tag opens no comment if its names do not. -/
theorem openings_startTag {tag : TagName} (htag : lacksOpener tag.text = true)
    (hnames : attributes.all Attribute.lacksOpener = true) (rest : List Char) :
    openings ('<' :: (tag.text.toList ++
      ((attributes.filterMap Attribute.constant?).flatMap attributeChars ++ ['>']) ++ rest)) =
      openings rest := by
  rw [lacksOpener_iff] at htag
  have hbrackets := open_notMem_startTag htag.1 (open_notMem_of_mem_constants hnames)
  cases hchars : tag.text.toList with
  | cons first name =>
    rw [hchars] at htag hbrackets
    refine openings_bracket hbrackets rfl ?_ rest
    rintro rfl
    exact htag.2 (.head _)
  | nil =>
    rw [hchars] at hbrackets
    -- Without a name, the blank before an attribute or the end of the tag follows the bracket.
    cases hconstants : attributes.filterMap Attribute.constant? with
    | nil => exact openings_bracket (by decide) rfl (by decide) rest
    | cons entry entries =>
      rw [hconstants] at hbrackets
      have hblank : (attributeChars entry).head? = some ' ' := by
        obtain ⟨name, value⟩ := entry
        cases value <;> rfl
      have hhead : ([] ++ ((entry :: entries).flatMap attributeChars ++ ['>'])).head? =
          some ' ' := by
        simp [hblank]
      exact openings_bracket hbrackets hhead (by decide) rest

/-! ## One comment for each marker -/

/-- A comment opens for each of some markers and nowhere else in a text, whatever follows it. -/
def Opens (text : List Char) (markers : List Nat) : Prop :=
  ∀ rest, ∃ tails, openings (text ++ rest) = tails ++ openings rest ∧
    List.Forall₂ (fun tail marker => (markerComment marker).toList <+: tail) tails markers

/-- A text behind which the same comments open as behind its end opens none. -/
theorem opens_nil (h : ∀ rest, openings (text ++ rest) = openings rest) :
    Opens text [] := fun rest => ⟨[], h rest, .nil⟩

/-- Texts that stand one behind the other open the comments of both. -/
theorem Opens.append {text text' : List Char} {markers markers' : List Nat}
    (h : Opens text markers) (h' : Opens text' markers') :
    Opens (text ++ text') (markers ++ markers') := by
  intro rest
  obtain ⟨tails, hopen, hmarkers⟩ := h (text' ++ rest)
  obtain ⟨tails', hopen', hmarkers'⟩ := h' rest
  refine ⟨tails ++ tails', ?_, List.rel_append hmarkers hmarkers'⟩
  rw [List.append_assoc, hopen, hopen', List.append_assoc]

/-- The slot of a part between tags opens one comment. -/
theorem opens_marker (path : List Nat) (marker : Nat) (value : PartValue) :
    Opens (htmlOf [.slot ⟨path, .inContent marker, value⟩]) [marker] := by
  intro rest
  refine ⟨[(markerComment marker).toList ++ rest], ?_, .cons (List.prefix_append _ _) .nil⟩
  rw [htmlOf_cons, htmlOf_nil, List.append_nil]
  exact openings_markerComment marker rest

/-- Text between tags opens no comment. -/
theorem opens_textPieces (raw : String) : Opens (htmlOf (textPieces raw)) [] := by
  refine opens_nil fun rest => openings_append ?_ rest
  rw [htmlOf_textPieces]
  exact fun h => ne_lt_of_mem_escapeText h rfl

mutual

/-- In the HTML of an element, a comment opens for each marker and nowhere else. -/
theorem Element.opens_pieces (path : List Nat) (next : Nat) :
    ∀ e : Element, (∀ d ∈ e.elements, d.lacksOpener = true) →
      Opens (htmlOf (e.pieces path next)) (List.range' next e.markers)
  | .mk span tag attributes children, hnames => by
    rw [Element.elements, List.forall_mem_cons] at hnames
    obtain ⟨htag, hattributes⟩ := Bool.and_eq_true_iff.1 hnames.1
    have hstart : Opens ('<' :: (tag.text.toList ++
        ((attributes.filterMap Attribute.constant?).flatMap attributeChars ++ ['>']))) [] :=
      opens_nil fun rest => openings_startTag htag hattributes rest
    rw [Element.htmlOf_pieces, Element.markers]
    by_cases hvoid : isVoidTag tag.text = true
    · rw [if_pos hvoid, if_pos hvoid, List.append_nil]
      exact hstart
    · rw [if_neg hvoid] at hnames
      have hchildren := opens_childrenPieces path 0 next children hnames.2
      have hend : Opens ('<' :: '/' :: (tag.text.toList ++ ['>'])) [] := by
        have hslash : ('/' :: (tag.text.toList ++ ['>'])).head? = some '/' := rfl
        have hbracket : '<' ∉ tag.text.toList := (lacksOpener_iff.1 htag).1
        exact opens_nil fun rest =>
          openings_bracket (by simpa using hbracket) hslash (by decide) rest
      rw [if_neg hvoid, if_neg hvoid]
      simpa using hstart.append (hchildren.append hend)

/-- In the HTML of markup, a comment opens for each marker and nowhere else. -/
theorem Markup.opens_pieces (path : List Nat) (index next : Nat) :
    ∀ m : Markup, (∀ d ∈ m.elements, d.lacksOpener = true) →
      Opens (htmlOf (m.pieces path index next)) (List.range' next m.markers)
  | .element e, hnames => by
    rw [Markup.elements] at hnames
    unfold Markup.pieces Markup.markers
    cases hcomponent : e.isComponent with
    | true => exact opens_marker path next _
    | false =>
      rw [hcomponent] at hnames
      exact Element.opens_pieces (path ++ [index]) next e hnames
  | .fragment _ _, _ => opens_marker path next _

/-- In the HTML of a child, a comment opens for each marker and nowhere else. -/
theorem Child.opens_pieces (path : List Nat) (index next : Nat) :
    ∀ c : Child, (∀ d ∈ c.elements, d.lacksOpener = true) →
      Opens (htmlOf (c.pieces path index next)) (List.range' next c.markers)
  | .text raw, _ => opens_textPieces raw
  | .markup m, hnames => Markup.opens_pieces path index next m hnames
  | .expr _, _ => opens_marker path next _
  | .empty, _ => opens_nil fun _ => rfl
  | .spread _, _ => opens_marker path next _

/-- In the HTML of children, a comment opens for each marker and nowhere else. -/
theorem opens_childrenPieces (path : List Nat) (index next : Nat) :
    ∀ children : List Child, (∀ d ∈ childrenElements children, d.lacksOpener = true) →
      Opens (htmlOf (childrenPieces path index next children))
        (List.range' next (childrenMarkers children))
  | [], _ => opens_nil fun _ => rfl
  | child :: children, hnames => by
    obtain ⟨hfirst, hrest⟩ := forall_mem_childrenElements_cons hnames
    rw [childrenPieces_cons, htmlOf_append, childrenMarkers, ← List.range'_append_1]
    exact (Child.opens_pieces path index next child hfirst).append
      (opens_childrenPieces _ _ _ children hrest)

end

/-! ## The whole -/

/-- How the slots, the parts and the markers of a skeleton hang together, if its markers are
numbered from `next` on. -/
structure Skeleton.Consistent (skeleton : Skeleton) (next : Nat) : Prop where
  /-- The slots have the indices of the parts, each once and in order. -/
  slots : skeleton.outline.filterMap Outline.slot? = List.range skeleton.parts.length
  /-- The slot of a part stands in a tag exactly if the part is an attribute. -/
  slot_of_part : ∀ index part, skeleton.parts[index]? = some part →
    (.inTag index ∈ skeleton.outline ↔ part.isAttribute = true) ∧
      (.inContent index ∈ skeleton.outline ↔ part.isAttribute = false)
  /-- A part has a marker exactly if it is no attribute. -/
  marker_of_part : ∀ part ∈ skeleton.parts, part.marker?.isSome = !part.isAttribute
  /-- The texts of the markers are numbered through from `next` on, as many as are counted. -/
  markers : (markersIn skeleton.parts).map markerText =
    (List.range' next skeleton.markers).map fun marker => "#" ++ toString marker
  /-- No two pieces of HTML are neighbours. -/
  apart : skeleton.outline.IsChain Outline.Apart

/-- The slots of an element's skeleton have the indices of its parts, those between tags are
numbered through by their markers, and no pieces of HTML are neighbours. If the names in the
template open no comment, a comment opens in its HTML for each marker, with the text of that marker
in it, and nowhere else. The markers of elements that share a counter have different texts. -/
theorem slots_parts_markers :
    (∀ (e : Element) (next : Nat), (e.skeleton next).Consistent next ∧
      ((∀ d ∈ e.elements, d.lacksOpener = true) →
        List.Forall₂ (fun tail marker => (markerComment marker).toList <+: tail)
          (openings (e.skeleton next).templateHtml.toList) (markersIn (e.skeleton next).parts))) ∧
    ∀ (next : Nat) (elements : List Element),
      ((markersIn ((skeletons next elements).flatMap Skeleton.parts)).map markerText).Nodup := by
  refine ⟨fun e next => ⟨?_, fun hnames => ?_⟩, fun next elements => ?_⟩
  · exact {
      slots := (e.numbered_skeleton next).slots
      slot_of_part := fun _ _ => (e.numbered_skeleton next).slot_of_part
      marker_of_part := fun part _ => part.isSome_marker?
      markers := by rw [e.markersIn_skeleton]; rfl
      apart := e.isChain_apart_outline next }
  · obtain ⟨tails, hopen, hmarkers⟩ := e.opens_pieces [] next hnames []
    rw [List.append_nil, openings, List.append_nil] at hopen
    rw [e.skeleton_templateHtml, hopen, e.skeleton_parts, e.markersIn_pieces]
    exact hmarkers
  · obtain ⟨count, hcount⟩ := exists_markersIn_skeletons next elements
    rw [List.nodup_map_iff markerText_injective, hcount]
    exact List.nodup_range'

/-- The notice with markers from three on: in its template two comments open, for its two markers.
-/
theorem slots_parts_markers_notice :
    (∀ d ∈ notice.elements, d.lacksOpener = true) ∧
      markersIn (notice.skeleton 3).parts = [3, 4] ∧
      List.Forall₂ (fun tail marker => (markerComment marker).toList <+: tail)
        (openings (notice.skeleton 3).templateHtml.toList) (markersIn (notice.skeleton 3).parts) :=
  have hnames : ∀ d ∈ notice.elements, d.lacksOpener = true := by decide +kernel
  ⟨hnames, by decide +kernel, (slots_parts_markers.1 notice 3).2 hnames⟩

end Syntax

end MarkupCompiler
