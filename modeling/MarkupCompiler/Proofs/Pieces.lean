import Mathlib.Data.List.Basic
import Mathlib.Data.List.Induction
import MarkupCompiler.Markup.Skeleton

/-!
# The pieces of a skeleton

What every account of skeletons needs. While pieces are pushed, the slots stay numbered by the parts
(`Skeleton.Numbered`), so that each slot finds its part again: a skeleton has the pieces of its
element, with neighbouring HTML joined (`Element.skeleton_pieces`). Joining changes neither the
parts nor the text of a template, the number of markers of an element depends on its form alone, and
a static element has no parts.

`Element.markers` counts the markers by recursion on the tree. The pieces of an element are numbered
by counting the markers of the pieces before them, and `Element.markerCount_pieces` shows that the
two counts agree.
-/

namespace MarkupCompiler

/-- Two indices are written in different ways behind one text. -/
theorem numbered_injective (stem : String) :
    Function.Injective fun index : Nat => stem ++ toString index := by
  intro i j h
  have hdigits : Nat.toDigits 10 i = Nat.toDigits 10 j := by
    have hrepr := (String.append_right_inj _).1 h
    rw [Nat.toString_eq_ofList_toDigits, Nat.toString_eq_ofList_toDigits] at hrepr
    exact String.ofList_injective hrepr
  rw [← @Nat.ofDigitChars_ten_toDigits i, hdigits, Nat.ofDigitChars_ten_toDigits]

namespace Syntax

/-! ## Parts and HTML of pieces -/

/-- The part of a slot. -/
def Piece.part? : Piece → Option Part
  | .html _ => none
  | .slot part => some part

/-- The parts of pieces, in order. -/
def partsOf (pieces : List Piece) : List Part := pieces.filterMap Piece.part?

/-- No pieces have no parts. -/
@[simp]
theorem partsOf_nil : partsOf [] = [] := rfl

/-- HTML has no part. -/
@[simp]
theorem partsOf_html (text : String) (pieces : List Piece) :
    partsOf (.html text :: pieces) = partsOf pieces := rfl

/-- A slot has its part. -/
@[simp]
theorem partsOf_slot (part : Part) (pieces : List Piece) :
    partsOf (.slot part :: pieces) = part :: partsOf pieces := rfl

/-- Parts stand in the order of the pieces. -/
@[simp]
theorem partsOf_append (pieces rest : List Piece) :
    partsOf (pieces ++ rest) = partsOf pieces ++ partsOf rest := List.filterMap_append

/-- The characters that pieces leave in a template. -/
def htmlOf (pieces : List Piece) : List Char :=
  pieces.flatMap fun piece => piece.templateHtml.toList

/-- No pieces leave nothing. -/
@[simp]
theorem htmlOf_nil : htmlOf [] = [] := rfl

/-- A piece leaves its HTML. -/
@[simp]
theorem htmlOf_cons (piece : Piece) (pieces : List Piece) :
    htmlOf (piece :: pieces) = piece.templateHtml.toList ++ htmlOf pieces := List.flatMap_cons

/-- HTML stands in the order of the pieces. -/
@[simp]
theorem htmlOf_append (pieces rest : List Piece) :
    htmlOf (pieces ++ rest) = htmlOf pieces ++ htmlOf rest := List.flatMap_append

/-- Joins neighbouring pieces of HTML. -/
def joinHtml : List Piece → List Piece
  | [] => []
  | .html text :: pieces =>
    match joinHtml pieces with
    | .html rest :: joined => .html (text ++ rest) :: joined
    | joined => .html text :: joined
  | .slot part :: pieces => .slot part :: joinHtml pieces

/-- Pieces with HTML behind them, which is joined to HTML that comes last. -/
def extendHtml (text : String) : List Piece → List Piece
  | [] => [.html text]
  | [.html last] => [.html (last ++ text)]
  | piece :: rest => piece :: extendHtml text rest

/-- HTML is not joined to a first piece that is no HTML or that others follow. -/
theorem extendHtml_cons {text : String} {piece : Piece} {rest : List Piece}
    (h : ∀ last, piece = .html last → rest ≠ []) :
    extendHtml text (piece :: rest) = piece :: extendHtml text rest := by
  rcases piece with last | part <;> rcases rest with _ | ⟨next, rest⟩
  · exact absurd rfl (h last rfl)
  all_goals rfl

/-- HTML behind pieces is joined to HTML that comes last among them. -/
theorem joinHtml_append_html (pieces : List Piece) (text : String) :
    joinHtml (pieces ++ [.html text]) = extendHtml text (joinHtml pieces) := by
  induction pieces with
  | nil => rfl
  | cons piece pieces ih =>
    cases piece with
    | slot part => rw [List.cons_append, joinHtml, ih, joinHtml, extendHtml]; simp
    | html first =>
      rw [List.cons_append, joinHtml, ih, joinHtml]
      rcases joinHtml pieces with _ | ⟨second | part, _ | ⟨third, rest⟩⟩
      all_goals simp [extendHtml, String.append_assoc]

/-- A slot behind pieces stays as it is. -/
theorem joinHtml_append_slot (pieces : List Piece) (part : Part) :
    joinHtml (pieces ++ [.slot part]) = joinHtml pieces ++ [.slot part] := by
  induction pieces with
  | nil => rfl
  | cons piece pieces ih =>
    cases piece with
    | slot first => rw [List.cons_append, joinHtml, ih, joinHtml, List.cons_append]
    | html first =>
      rw [List.cons_append, joinHtml, ih, joinHtml]
      rcases joinHtml pieces with _ | ⟨second | second, rest⟩ <;> rfl

/-- Joining neighbouring HTML keeps the parts. -/
theorem partsOf_joinHtml (pieces : List Piece) : partsOf (joinHtml pieces) = partsOf pieces := by
  induction pieces with
  | nil => rfl
  | cons piece pieces ih =>
    cases piece with
    | html text =>
      -- Whether the next piece is HTML, which is joined to this one, or not, no part is lost.
      unfold joinHtml
      split
      · rename_i rest joined hjoined
        rw [hjoined] at ih
        exact ih
      · exact ih
    | slot part =>
      rw [joinHtml, partsOf_slot, partsOf_slot, ih]

/-- Joining neighbouring HTML keeps the characters. -/
theorem htmlOf_joinHtml (pieces : List Piece) : htmlOf (joinHtml pieces) = htmlOf pieces := by
  induction pieces with
  | nil => rfl
  | cons piece pieces ih =>
    cases piece with
    | html text =>
      unfold joinHtml
      split
      · rename_i rest joined hjoined
        rw [hjoined] at ih
        rw [htmlOf_cons, htmlOf_cons, ← ih, htmlOf_cons, ← List.append_assoc]
        simp [Piece.templateHtml]
      · rw [htmlOf_cons, htmlOf_cons, ih]
    | slot part =>
      rw [joinHtml, htmlOf_cons, htmlOf_cons, ih]

/-! ## Slots -/

/-- The number of a slot. -/
def Outline.slot? : Outline → Option Nat
  | .html _ => none
  | .inTag slot => some slot
  | .inContent slot => some slot

/-- The outline of a part has its slot. -/
@[simp]
theorem Part.slot?_outline (part : Part) (slot : Nat) : (part.outline slot).slot? = some slot := by
  unfold Part.outline
  split <;> rfl

/-- HTML that is added leaves the slots as they are. -/
theorem filter_slots_appendHtml (text : String) (outline : List Outline) :
    (appendHtml text outline).filter (·.slot?.isSome) = outline.filter (·.slot?.isSome) := by
  fun_induction appendHtml text outline with
  | case1 => rfl
  | case2 last => rfl
  | case3 piece rest _ ih => rw [List.filter_cons, List.filter_cons, ih]

namespace Skeleton

/-- The slots of a skeleton are those of its parts, numbered in order. -/
def Numbered (skeleton : Skeleton) : Prop :=
  skeleton.outline.filter (·.slot?.isSome) =
    skeleton.parts.zipIdx.map fun entry => entry.1.outline entry.2

variable {skeleton : Skeleton}

/-- Slots stay numbered when a piece is pushed. -/
theorem Numbered.push (h : skeleton.Numbered) (piece : Piece) : (skeleton.push piece).Numbered := by
  unfold Numbered at h ⊢
  cases piece with
  | html text => exact (filter_slots_appendHtml text _).trans h
  | slot part => simp [Skeleton.push, h, List.zipIdx_append]

/-- The slots have the indices of the parts, in order. -/
theorem Numbered.slots (h : skeleton.Numbered) :
    skeleton.outline.filterMap Outline.slot? = List.range skeleton.parts.length := by
  have hslots : skeleton.outline.filterMap Outline.slot? =
      (skeleton.outline.filter (·.slot?.isSome)).filterMap Outline.slot? := by
    rw [List.filterMap_filter]
    refine List.filterMap_congr fun piece _ => ?_
    cases piece.slot? <;> rfl
  rw [hslots, h, List.filterMap_map]
  simp [List.filterMap_eq_map', List.range_eq_range']

/-- An outline has a slot exactly if it is that of the part with its number. -/
theorem Numbered.mem_outline_iff (h : skeleton.Numbered) {slot : Outline} {index : Nat}
    (hslot : slot.slot? = some index) :
    slot ∈ skeleton.outline ↔
      ∃ part, skeleton.parts[index]? = some part ∧ part.outline index = slot := by
  have hmem : slot ∈ skeleton.outline ↔ slot ∈ skeleton.outline.filter (·.slot?.isSome) := by
    simp [hslot]
  rw [hmem, h, List.mem_map]
  constructor
  · rintro ⟨⟨part, number⟩, hentry, rfl⟩
    rw [Part.slot?_outline, Option.some.injEq] at hslot
    cases hslot
    exact ⟨part, List.mem_zipIdx_iff_getElem?.1 hentry, rfl⟩
  · rintro ⟨part, hpart, rfl⟩
    exact ⟨(part, index), List.mem_zipIdx_iff_getElem?.2 hpart, rfl⟩

/-- A numbered slot is filled by the part with its number. -/
theorem Numbered.piece?_of_mem (h : skeleton.Numbered) {slot : Outline}
    (hmem : slot ∈ skeleton.outline) {index : Nat} (hslot : slot.slot? = some index) :
    ∃ part, skeleton.parts[index]? = some part ∧ skeleton.piece? slot = some (.slot part) := by
  obtain ⟨part, hpart, rfl⟩ := (h.mem_outline_iff hslot).1 hmem
  refine ⟨part, hpart, ?_⟩
  unfold Part.outline
  split <;> simp [piece?, hpart]

/-- The parts of a skeleton are those of the pieces that were pushed. -/
theorem parts_foldl_push (skeleton : Skeleton) (pieces : List Piece) :
    (pieces.foldl push skeleton).parts = skeleton.parts ++ partsOf pieces := by
  induction pieces generalizing skeleton with
  | nil => exact (List.append_nil _).symm
  | cons piece pieces ih =>
    rw [List.foldl_cons, ih]
    cases piece with
    | html text => rfl
    | slot part => exact List.append_assoc _ [part] _

/-- A part that is pushed is the last piece, and leaves the pieces before it as they are. -/
theorem Numbered.pieces_push_slot (h : skeleton.Numbered) (part : Part) :
    (skeleton.push (.slot part)).pieces = skeleton.pieces ++ [.slot part] := by
  have hkept : ∀ piece ∈ skeleton.outline,
      (skeleton.push (.slot part)).piece? piece = skeleton.piece? piece := by
    intro piece hmem
    cases hslot : piece.slot? with
    | none => cases piece <;> first | rfl | cases hslot
    | some index =>
      obtain ⟨found, hfound, -⟩ := h.piece?_of_mem hmem hslot
      have hlt := (List.getElem?_eq_some_iff.1 hfound).1
      cases piece with
      | html text => cases hslot
      | _ =>
        cases hslot
        simp [Skeleton.push, piece?, List.getElem?_append_left hlt]
  have hlast : (skeleton.push (.slot part)).piece? (part.outline skeleton.parts.length) =
      some (.slot part) := by
    unfold Part.outline
    split <;> simp [Skeleton.push, piece?]
  show (skeleton.outline ++ [part.outline skeleton.parts.length]).filterMap
    (skeleton.push (.slot part)).piece? = _
  rw [List.filterMap_append, List.filterMap_congr hkept, List.filterMap_cons_some hlast]
  rfl

/-- HTML that is pushed is added to the pieces. -/
theorem Numbered.pieces_push_html (h : skeleton.Numbered) (text : String) :
    (skeleton.push (.html text)).pieces = extendHtml text skeleton.pieces := by
  have hfilled : ∀ piece ∈ skeleton.outline, (skeleton.piece? piece).isSome = true := by
    intro piece hmem
    cases hslot : piece.slot? with
    | none => cases piece <;> first | rfl | cases hslot
    | some index =>
      obtain ⟨part, -, hpiece⟩ := h.piece?_of_mem hmem hslot
      rw [hpiece, Option.isSome_some]
  show (appendHtml text skeleton.outline).filterMap skeleton.piece? =
    extendHtml text (skeleton.outline.filterMap skeleton.piece?)
  generalize skeleton.outline = outline at hfilled
  fun_induction appendHtml text outline with
  | case1 => rfl
  | case2 last => rfl
  | case3 piece rest hlast ih =>
    obtain ⟨hpiece, hrest⟩ := List.forall_mem_cons.1 hfilled
    obtain ⟨filled, hfilled⟩ := Option.isSome_iff_exists.1 hpiece
    rw [List.filterMap_cons_some hfilled, List.filterMap_cons_some hfilled, ih hrest]
    refine (extendHtml_cons fun first hfirst hnil => ?_).symm
    -- If nothing comes next, the piece is no HTML.
    cases piece with
    | html last =>
      cases rest with
      | nil => exact hlast last rfl rfl
      | cons second rest =>
        obtain ⟨found, hfound⟩ := Option.isSome_iff_exists.1 (hrest second (.head _))
        rw [List.filterMap_cons_some hfound] at hnil
        cases hnil
    | _ =>
      obtain ⟨part, -, hpart⟩ := Option.map_eq_some_iff.1 hfilled
      rw [← hpart] at hfirst
      cases hfirst

/-- Pieces that are pushed one after the other are the pieces of the skeleton, with neighbouring
HTML joined, and its slots are numbered. -/
theorem foldl_push (pieces : List Piece) :
    (pieces.foldl push {}).Numbered ∧ (pieces.foldl push {}).pieces = joinHtml pieces := by
  induction pieces using List.reverseRecOn with
  | nil => exact ⟨rfl, rfl⟩
  | append_singleton pieces piece ih =>
    obtain ⟨hnumbered, hpieces⟩ := ih
    rw [List.foldl_append, List.foldl_cons, List.foldl_nil]
    refine ⟨hnumbered.push piece, ?_⟩
    cases piece with
    | html text => rw [hnumbered.pieces_push_html, hpieces, joinHtml_append_html]
    | slot part => rw [hnumbered.pieces_push_slot, hpieces, joinHtml_append_slot]

end Skeleton

/-- The slots of the skeleton of an element are numbered. -/
theorem Element.numbered_skeleton (e : Element) (next : Nat) : (e.skeleton next).Numbered :=
  (Skeleton.foldl_push _).1

/-- A skeleton has the pieces of its element, with neighbouring HTML joined. -/
theorem Element.skeleton_pieces (e : Element) (next : Nat) :
    (e.skeleton next).pieces = joinHtml (e.pieces [] next) := (Skeleton.foldl_push _).2

/-- The parts of a skeleton are those of the pieces of its element. -/
theorem Element.skeleton_parts (e : Element) (next : Nat) :
    (e.skeleton next).parts = partsOf (e.pieces [] next) := Skeleton.parts_foldl_push {} _

/-- The parts of a skeleton are those in its slots. -/
theorem Element.partsOf_skeleton_pieces (e : Element) (next : Nat) :
    partsOf (e.skeleton next).pieces = (e.skeleton next).parts := by
  rw [e.skeleton_pieces, e.skeleton_parts, partsOf_joinHtml]

variable {part : Part} {path : List Nat}

/-- What is in a slot of a skeleton is a part of it. -/
theorem Element.mem_parts_of_slot {e : Element} {next : Nat}
    (h : .slot part ∈ (e.skeleton next).pieces) : part ∈ (e.skeleton next).parts := by
  rw [← e.partsOf_skeleton_pieces]
  exact List.mem_filterMap.2 ⟨.slot part, h, rfl⟩

/-- The HTML of a template is what the pieces of its element leave in it. -/
theorem Element.skeleton_templateHtml (e : Element) (next : Nat) :
    (e.skeleton next).templateHtml.toList = htmlOf (e.pieces [] next) := by
  rw [Skeleton.templateHtml, String.toList_join, List.flatMap_map, e.skeleton_pieces]
  exact htmlOf_joinHtml _

/-! ## Markers -/

mutual

/-- The number of markers in the template of an element. -/
def Element.markers : Element → Nat
  | .mk _ tag _ children => if isVoidTag tag.text then 0 else childrenMarkers children

/-- The number of markers that markup leaves in the template around it. -/
def Markup.markers : Markup → Nat
  | .element e => if e.isComponent then 1 else e.markers
  | .fragment _ _ => 1

/-- The number of markers that a child leaves in the template around it. -/
def Child.markers : Child → Nat
  | .text _ | .empty => 0
  | .markup m => m.markers
  | .expr _ | .spread _ => 1

/-- The number of markers that children leave in the template around them. -/
def childrenMarkers : List Child → Nat
  | [] => 0
  | child :: children => child.markers + childrenMarkers children

end

/-- Markers are counted piece by piece. -/
theorem markerCount_append (pieces rest : List Piece) :
    markerCount (pieces ++ rest) = markerCount pieces + markerCount rest := by
  induction pieces with
  | nil => simp [markerCount]
  | cons piece pieces ih =>
    cases piece with
    | html text => simp only [List.cons_append, markerCount, ih]
    | slot part =>
      simp only [List.cons_append, markerCount, ih]
      omega

/-- A constant attribute has no marker. -/
theorem markerCount_constantPieces (name : String) (value : Constant) :
    markerCount (constantPieces name value) = 0 := by
  unfold constantPieces
  split <;> rfl

/-- An attribute has no marker. -/
theorem Attribute.markerCount_pieces (path : List Nat) (a : Attribute) :
    markerCount (a.pieces path) = 0 := by
  unfold Attribute.pieces
  split
  · rfl
  · split
    · rfl
    · split
      · exact markerCount_constantPieces _ _
      · rfl
      · rfl
      · rfl

/-- Attributes have no markers. -/
theorem markerCount_attributes (path : List Nat) (attributes : List Attribute) :
    markerCount (attributes.flatMap (Attribute.pieces path)) = 0 := by
  induction attributes with
  | nil => rfl
  | cons a attributes ih =>
    rw [List.flatMap_cons, markerCount_append, a.markerCount_pieces, ih]

/-- Text has no marker. -/
theorem markerCount_textPieces (raw : String) : markerCount (textPieces raw) = 0 := by
  unfold textPieces
  dsimp only
  split <;> rfl

mutual

/-- The pieces of an element have the markers that its form says. -/
theorem Element.markerCount_pieces (path : List Nat) (next : Nat) :
    ∀ e : Element, markerCount (e.pieces path next) = e.markers
  | .mk _ tag attributes children => by
    have hattributes := markerCount_attributes path attributes
    have hchildren := markerCount_childrenPieces path 0 next children
    unfold Element.pieces Element.markers
    split
    · simp [markerCount, markerCount_append, hattributes]
    · simp [markerCount, markerCount_append, hattributes, hchildren]

/-- The pieces of markup have the markers that its form says. -/
theorem Markup.markerCount_pieces (path : List Nat) (index next : Nat) :
    ∀ m : Markup, markerCount (m.pieces path index next) = m.markers
  | .element e => by
    have he := Element.markerCount_pieces (path ++ [index]) next e
    -- A component has one marker, whatever is in it.
    unfold Markup.pieces Markup.markers
    split
    · rfl
    · exact he
  | .fragment _ _ => rfl

/-- The pieces of a child have the markers that its form says. -/
theorem Child.markerCount_pieces (path : List Nat) (index next : Nat) :
    ∀ c : Child, markerCount (c.pieces path index next) = c.markers
  | .text raw => markerCount_textPieces raw
  | .markup m => Markup.markerCount_pieces path index next m
  | .expr _ => rfl
  | .empty => rfl
  | .spread _ => rfl

/-- The pieces of children have the markers that their forms say. -/
theorem markerCount_childrenPieces (path : List Nat) (index next : Nat) :
    ∀ children : List Child, markerCount (childrenPieces path index next children) =
      childrenMarkers children
  | [] => rfl
  | child :: children => by
    have hchild := Child.markerCount_pieces path index next child
    unfold childrenPieces childrenMarkers
    rw [markerCount_append, hchild, markerCount_childrenPieces _ _ _ children]

end

/-- The pieces of children are those of the first and those of the others, numbered after it. -/
theorem childrenPieces_cons (path : List Nat) (index next : Nat) (child : Child)
    (children : List Child) :
    childrenPieces path index next (child :: children) =
      child.pieces path index next ++
        childrenPieces path (if child.isElement then index + 1 else index) (next + child.markers)
          children := by
  rw [childrenPieces, child.markerCount_pieces]

/-! ## Static attributes and elements -/

/-- A constant attribute has no part. -/
theorem partsOf_constantPieces (name : String) (value : Constant) :
    partsOf (constantPieces name value) = [] := by
  unfold constantPieces
  split <;> rfl

/-- A static attribute has no part. -/
theorem Attribute.partsOf_pieces_of_isStatic (path : List Nat) (a : Attribute)
    (h : a.isStatic = true) : partsOf (a.pieces path) = [] := by
  cases a with
  | spread value => cases h
  | named name value =>
    unfold Attribute.pieces
    dsimp only
    split
    · rfl
    · rename_i hignored
      simp only [Attribute.isStatic, hignored, Bool.false_or, Option.isSome_iff_exists] at h
      obtain ⟨constant, hconstant⟩ := h
      rw [hconstant]
      exact partsOf_constantPieces name constant

/-- What an attribute that is left open is filled with, and under which name. -/
def Attribute.filler? : Attribute → Option (Option String × PartValue)
  | .spread value => some (none, .spread value)
  | .named name (.expr value) => some (some name, .expr value)
  | .named name (.markup m) => some (some name, .markup m)
  | .named _ _ => none

/-- An attribute that is left open is one part. -/
theorem Attribute.partsOf_pieces_of_not_isStatic (path : List Nat) {a : Attribute}
    (h : a.isStatic = false) :
    ∃ name value, a.filler? = some (name, value) ∧
      partsOf (a.pieces path) = [⟨path, .inTag name, value⟩] := by
  cases a with
  | spread value => exact ⟨none, .spread value, rfl, rfl⟩
  | named name value =>
    rw [Attribute.isStatic, Bool.or_eq_false_iff, Option.isSome_eq_false_iff,
      Option.isNone_iff_eq_none] at h
    obtain ⟨hignored, hconstant⟩ := h
    unfold Attribute.pieces
    dsimp only
    rw [hignored, hconstant]
    cases value with
    | bare => cases hconstant
    | text raw => cases hconstant
    | expr value => exact ⟨some name, .expr value, rfl, rfl⟩
    | empty => simp [isIgnored, AttributeValue.isEmpty] at hignored
    | markup m => exact ⟨some name, .markup m, rfl, rfl⟩

/-- An attribute has at most one part, which is filled with its value. -/
theorem Attribute.partsOf_pieces (path : List Nat) (a : Attribute) :
    partsOf (a.pieces path) = [] ∨
      ∃ name value, a.filler? = some (name, value) ∧
        partsOf (a.pieces path) = [⟨path, .inTag name, value⟩] := by
  cases hstatic : a.isStatic with
  | true => exact .inl (a.partsOf_pieces_of_isStatic path hstatic)
  | false => exact .inr (a.partsOf_pieces_of_not_isStatic path hstatic)

/-- Text has no part. -/
@[simp]
theorem partsOf_textPieces (raw : String) : partsOf (textPieces raw) = [] := by
  unfold textPieces
  dsimp only
  split <;> rfl

/-- What a child that is left open is filled with. -/
def Child.filler? : Child → Option PartValue
  | .expr value => some (.expr value)
  | .spread value => some (.spread value)
  | .markup m => some (.markup m)
  | .text _ | .empty => none

/-- The parts of an element at a path, by its attributes and children: those that are left open are
filled with parts, and so are those of the elements among the children. -/
inductive HasPart : List Nat → List Attribute → List Child → Part → Prop
  | inTag {path : List Nat} {attributes : List Attribute} {children : List Child}
      {a : Attribute} {name : Option String} {value : PartValue} (ha : a ∈ attributes)
      (hopen : a.isStatic = false) (hfiller : a.filler? = some (name, value)) :
      HasPart path attributes children ⟨path, .inTag name, value⟩
  | inContent {path : List Nat} {attributes : List Attribute} {children : List Child} {c : Child}
      {marker : Nat} {value : PartValue} (hc : c ∈ children) (hopen : c.isStatic = false)
      (hfiller : c.filler? = some value) :
      HasPart path attributes children ⟨path, .inContent marker, value⟩
  | nested {path : List Nat} {attributes : List Attribute} {children : List Child} {e : Element}
      {index : Nat} {part : Part} (he : .markup (.element e) ∈ children) :
      HasPart (path ++ [index]) e.attributes e.children part → HasPart path attributes children part

/-- More attributes and children have the parts of fewer. -/
theorem HasPart.mono {attributes attributes' : List Attribute} {children children' : List Child}
    (h : HasPart path attributes children part) (hattributes : attributes ⊆ attributes')
    (hchildren : children ⊆ children') : HasPart path attributes' children' part := by
  cases h with
  | inTag ha hopen hfiller => exact .inTag (hattributes ha) hopen hfiller
  | inContent hc hopen hfiller => exact .inContent (hchildren hc) hopen hfiller
  | nested he hpart => exact .nested (hchildren he) hpart

/-- The parts of attributes fill those that are left open. -/
theorem hasPart_attributes {attributes : List Attribute}
    (h : part ∈ partsOf (attributes.flatMap (Attribute.pieces path))) (children : List Child) :
    HasPart path attributes children part := by
  rw [partsOf, List.filterMap_flatMap] at h
  obtain ⟨a, ha, (hpart : part ∈ partsOf (a.pieces path))⟩ := List.mem_flatMap.1 h
  cases hstatic : a.isStatic with
  | true =>
    rw [a.partsOf_pieces_of_isStatic path hstatic] at hpart
    cases hpart
  | false =>
    obtain ⟨name, value, hfiller, hone⟩ := a.partsOf_pieces_of_not_isStatic path hstatic
    rw [hone] at hpart
    cases List.mem_singleton.1 hpart
    exact .inTag ha hstatic hfiller

mutual

/-- The parts of the pieces of an element. -/
theorem Element.hasPart (path : List Nat) (next : Nat) : ∀ e : Element,
    ∀ part ∈ partsOf (e.pieces path next), HasPart path e.attributes e.children part
  | .mk _ tag attributes children, part, h => by
    rw [Element.pieces, partsOf_html, partsOf_append, List.mem_append, partsOf_html] at h
    rcases h with h | h
    · exact hasPart_attributes h children
    · split at h
      · cases h
      · rw [partsOf_append, partsOf_html, partsOf_nil, List.append_nil] at h
        exact (hasPart_children path 0 next children part h).mono (List.nil_subset _) fun _ hc => hc

/-- The parts of the pieces of a child. -/
theorem Child.hasPart (path : List Nat) (index next : Nat) : ∀ c : Child,
    ∀ part ∈ partsOf (c.pieces path index next), HasPart path [] [c] part
  | .text raw, part, h => by
    rw [Child.pieces, partsOf_textPieces] at h
    cases h
  | .empty, part, h => by cases h
  | .markup (.element (.mk span tag attributes children)), part, h => by
    rw [Child.pieces, Markup.pieces] at h
    split at h
    · rename_i hcomponent
      cases List.mem_singleton.1 h
      refine .inContent (.head _) ?_ rfl
      rw [Element.isComponent, Element.tag] at hcomponent
      simp [Child.isStatic, Markup.isStatic, Element.isStatic, hcomponent]
    · exact .nested (.head _) (Element.hasPart (path ++ [index]) next _ part h)
  | .markup (.fragment _ _), part, h | .expr _, part, h | .spread _, part, h => by
    cases List.mem_singleton.1 h
    exact .inContent (.head _) rfl rfl

/-- The parts of the pieces of children. -/
theorem hasPart_children (path : List Nat) (index next : Nat) : ∀ children : List Child,
    ∀ part ∈ partsOf (childrenPieces path index next children), HasPart path [] children part
  | [], part, h => by cases h
  | child :: children, part, h => by
    rw [childrenPieces_cons, partsOf_append, List.mem_append] at h
    rcases h with h | h
    · exact (Child.hasPart path index next child part h).mono nofun (by simp)
    · exact (hasPart_children path _ _ children part h).mono nofun (List.subset_cons_self _ _)

end

/-- Static children are static one by one. -/
theorem childrenAreStatic_iff {children : List Child} :
    childrenAreStatic children = true ↔ ∀ c ∈ children, c.isStatic = true := by
  induction children with
  | nil => simp [childrenAreStatic]
  | cons child children ih => simp [childrenAreStatic, ih]

/-- Nothing that is static has parts. -/
theorem HasPart.not_isStatic {attributes : List Attribute} {children : List Child}
    (h : HasPart path attributes children part) :
    ¬ (attributes.all Attribute.isStatic = true ∧ childrenAreStatic children = true) := by
  rw [List.all_eq_true, childrenAreStatic_iff]
  rintro ⟨hattributes, hchildren⟩
  induction h with
  | inTag ha hopen _ => exact absurd (hattributes _ ha) (by simp [hopen])
  | inContent hc hopen _ => exact absurd (hchildren _ hc) (by simp [hopen])
  | @nested _ _ _ e _ _ he _ ih =>
    obtain ⟨span, tag, attributes, children⟩ := e
    have hstatic := hchildren _ he
    rw [Child.isStatic, Markup.isStatic, Element.isStatic] at hstatic
    simp only [Bool.and_eq_true, List.all_eq_true, childrenAreStatic_iff] at hstatic
    exact ih hstatic.1.2 hstatic.2

/-- A static element has no parts. -/
theorem Element.partsOf_pieces_of_isStatic (path : List Nat) (next : Nat) (e : Element)
    (h : e.isStatic = true) : partsOf (e.pieces path next) = [] := by
  refine List.eq_nil_iff_forall_not_mem.2 fun part hpart =>
    (e.hasPart path next part hpart).not_isStatic ?_
  obtain ⟨span, tag, attributes, children⟩ := e
  rw [Element.isStatic, Bool.and_eq_true, Bool.and_eq_true] at h
  exact ⟨h.1.2, h.2⟩

/-- The skeleton of a static element has no parts. -/
theorem Element.skeleton_parts_of_isStatic (e : Element) (next : Nat) (h : e.isStatic = true) :
    (e.skeleton next).parts = [] := by
  rw [e.skeleton_parts]
  exact e.partsOf_pieces_of_isStatic [] next h

/-- An element with a part is not static. -/
theorem Element.isStatic_eq_false_of_mem {e : Element} {next : Nat}
    (h : part ∈ (e.skeleton next).parts) : e.isStatic = false := by
  rw [← Bool.not_eq_true]
  intro hstatic
  rw [e.skeleton_parts_of_isStatic next hstatic] at h
  cases h

end Syntax

end MarkupCompiler
