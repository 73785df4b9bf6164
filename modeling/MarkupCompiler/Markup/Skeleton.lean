import MarkupCompiler.Markup.Constant
import MarkupCompiler.Text.Escape
import MarkupCompiler.Text.Lines

/-!
# Skeletons

The skeleton of an element is its HTML with a slot for each part that is only known when the program
runs. A part is an attribute or a child. A child's slot is marked in the HTML by a comment, which
carries a number of its own; an attribute's slot leaves no trace, and its element is found by a path
from the root. The pieces are written one after the other, and the parts are kept in a list of their
own, in which a slot finds its part by a number.
-/

namespace MarkupCompiler.Syntax

/-- What fills a slot. -/
inductive PartValue where
  | expr (value : Expr)
  | spread (value : Expr)
  | markup (markup : Markup)

/-- Where a slot is: among the attributes of an element, for the attribute with a name unless
attributes are spread there, or among its children, at a marker. -/
inductive Place where
  | inTag (name : Option String)
  | inContent (marker : Nat)
  deriving DecidableEq, Repr, Inhabited

/-- A part of an element that is only known when the program runs. The path leads from the root to
the element that the slot belongs to; each step is an index among the elements there. -/
structure Part where
  path : List Nat
  place : Place
  value : PartValue

/-- A piece of a skeleton. -/
inductive Piece where
  | html (text : String)
  | slot (part : Part)

/-- The text of a marker. -/
def markerText (marker : Nat) : String := "#" ++ toString marker

/-- A marker as a comment in HTML. -/
def markerComment (marker : Nat) : String := "<!--" ++ markerText marker ++ "-->"

/-- Whether a part is an attribute. -/
def Part.isAttribute (part : Part) : Bool :=
  match part.place with
  | .inTag _ => true
  | .inContent _ => false

/-- The number of markers in pieces. -/
def markerCount : List Piece → Nat
  | [] => 0
  | .html _ :: pieces => markerCount pieces
  | .slot part :: pieces => (if part.isAttribute then 0 else 1) + markerCount pieces

/-- An attribute with a constant value in HTML. -/
def constantPieces (name : String) (value : Constant) : List Piece :=
  match value.attributeText with
  | .omitted => []
  | .bare => [.html (" " ++ htmlName name)]
  | .quoted text => [.html (" " ++ htmlName name ++ "=\"" ++ Text.escapeAttribute text ++ "\"")]

/-- The pieces of an attribute of the element at a path. -/
def Attribute.pieces (path : List Nat) : Attribute → List Piece
  | .spread value => [.slot ⟨path, .inTag none, .spread value⟩]
  | .named name value =>
    if isIgnored name value then []
    else
      match value.constant?, value with
      | some constant, _ => constantPieces name constant
      | none, .expr e => [.slot ⟨path, .inTag (some name), .expr e⟩]
      | none, .markup m => [.slot ⟨path, .inTag (some name), .markup m⟩]
      | none, _ => []

/-- Whether a child is an element of the HTML. -/
def Child.isElement : Child → Bool
  | .markup (.element e) => !e.isComponent
  | _ => false

/-- Text between tags in HTML. -/
def textPieces (raw : String) : List Piece :=
  let text := Text.clean raw
  if text.isEmpty then [] else [.html (Text.escapeText (Text.decode text))]

mutual

/-- The pieces of the element at a path, with markers from `next` on. -/
def Element.pieces (path : List Nat) (next : Nat) : Element → List Piece
  | .mk _ tag attributes children =>
    .html ("<" ++ tag.text) :: (attributes.flatMap (Attribute.pieces path)
      ++ .html ">" :: (if isVoidTag tag.text then []
        else childrenPieces path 0 next children ++ [.html ("</" ++ tag.text ++ ">")]))

/-- The pieces of markup that is a child of the element at a path; `index` is the number of elements
before it there. A component or fragment is a part, any other element belongs to the HTML. -/
def Markup.pieces (path : List Nat) (index next : Nat) : Markup → List Piece
  | .element e =>
    if e.isComponent then [.slot ⟨path, .inContent next, .markup (.element e)⟩]
    else e.pieces (path ++ [index]) next
  | .fragment span children => [.slot ⟨path, .inContent next, .markup (.fragment span children)⟩]

/-- The pieces of a child of the element at a path. -/
def Child.pieces (path : List Nat) (index next : Nat) : Child → List Piece
  | .text raw => textPieces raw
  | .markup m => m.pieces path index next
  | .expr value => [.slot ⟨path, .inContent next, .expr value⟩]
  | .empty => []
  | .spread value => [.slot ⟨path, .inContent next, .spread value⟩]

/-- The pieces of children of the element at a path. -/
def childrenPieces (path : List Nat) (index next : Nat) : List Child → List Piece
  | [] => []
  | child :: children =>
    let pieces := child.pieces path index next
    pieces ++ childrenPieces path (if child.isElement then index + 1 else index)
      (next + markerCount pieces) children

end

/-- The HTML that a piece leaves in a template. -/
def Piece.templateHtml : Piece → String
  | .html text => text
  | .slot ⟨_, .inTag _, _⟩ => ""
  | .slot ⟨_, .inContent marker, _⟩ => markerComment marker

/-- A piece of a skeleton with the number of its slot in place of the part. -/
inductive Outline where
  | html (text : String)
  | inTag (slot : Nat)
  | inContent (slot : Nat)
  deriving DecidableEq, Repr, Inhabited

/-- The slot of a part, with a number. -/
def Part.outline (part : Part) (slot : Nat) : Outline :=
  if part.isAttribute then .inTag slot else .inContent slot

/-- Pieces with HTML behind them, which is joined to HTML that comes last. -/
def appendHtml (text : String) : List Outline → List Outline
  | [] => [.html text]
  | [.html last] => [.html (last ++ text)]
  | piece :: rest => piece :: appendHtml text rest

/-- The HTML of an element with its slots left open: the pieces, in which a slot has the index of
its part, and the parts. -/
structure Skeleton where
  outline : List Outline := []
  parts : List Part := []

namespace Skeleton

/-- Adds a piece at the end. A part takes the next index, and its slot is numbered by it. -/
def push (skeleton : Skeleton) : Piece → Skeleton
  | .html text => { skeleton with outline := appendHtml text skeleton.outline }
  | .slot part =>
    { outline := skeleton.outline ++ [part.outline skeleton.parts.length]
      parts := skeleton.parts ++ [part] }

/-- A piece with the part that a slot is numbered for. -/
def piece? (skeleton : Skeleton) : Outline → Option Piece
  | .html text => some (.html text)
  | .inTag slot | .inContent slot => skeleton.parts[slot]?.map .slot

/-- The pieces of a skeleton, with the parts in their slots. -/
def pieces (skeleton : Skeleton) : List Piece := skeleton.outline.filterMap skeleton.piece?

/-- The HTML of a template: attribute slots leave nothing, child slots their markers. -/
def templateHtml (skeleton : Skeleton) : String :=
  String.join (skeleton.pieces.map Piece.templateHtml)

/-- The number of markers in a skeleton. -/
def markers (skeleton : Skeleton) : Nat := markerCount skeleton.pieces

end Skeleton

/-- The skeleton of an element, with markers from `next` on. -/
def Element.skeleton (next : Nat) (e : Element) : Skeleton :=
  (e.pieces [] next).foldl Skeleton.push {}

/-- Where the value of a part stands. -/
def PartValue.span : PartValue → Span
  | .expr value => value.span
  | .spread value => value.span
  | .markup m => m.span

/-- The HTML of an element, if it is static. -/
def Element.staticHtml? (e : Element) : Option String :=
  if e.isStatic then some (e.skeleton 0).templateHtml else none

end MarkupCompiler.Syntax
