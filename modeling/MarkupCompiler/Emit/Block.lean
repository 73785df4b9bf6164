import MarkupCompiler.Emit.Component
import MarkupCompiler.Markup.ListShape
import MarkupCompiler.Markup.Skeleton

/-!
# Elements on the client

An element with parts is a block of statements: they clone its template, find the places of the
parts in the clone, bind each part and return the clone. A list of items is bound by a helper of
its own, to which the block of an item is given as a function.
-/

namespace MarkupCompiler

open Syntax Text

/-- Where a point is that statements bind: at an element, for the attribute with a name unless
attributes are spread there, or between tags, at a marker with a text if there is one. -/
inductive BindingPlace where
  | attribute (name : Option String)
  | content (marker : Option String)
  deriving DecidableEq, Repr, Inhabited

/-- A point of a template that statements bind to a value. The path leads from the root to the
element that it belongs to. -/
structure BindingPoint where
  path : List Nat
  place : BindingPlace
  value : PartValue

namespace BindingPoint

/-- Whether a point is an attribute. -/
def isAttribute (point : BindingPoint) : Bool :=
  match point.place with
  | .attribute _ => true
  | .content _ => false

/-- The name of the attribute at a point. -/
def name (point : BindingPoint) : String :=
  match point.place with
  | .attribute name => name.getD ""
  | .content _ => ""

/-- The text of the marker at a point. -/
def markerId (point : BindingPoint) : String :=
  match point.place with
  | .attribute _ => ""
  | .content marker => marker.getD ""

end BindingPoint

/-- A part as a point of its template. -/
def Syntax.Part.point (part : Part) : BindingPoint where
  path := part.path
  place := match part.place with
    | .inTag name => .attribute name
    | .inContent marker => .content (some (markerText marker))
  value := part.value

namespace Emitters

/-- Statements as the lines of a block. -/
def blockText (lines : List String) : String :=
  String.join (lines.map fun line => "  " ++ line ++ "\n")

/-- The steps along a path of elements. -/
def pathSteps (path : List Nat) : String :=
  String.join (path.map fun index => ".children[" ++ toString index ++ "]")

/-- The variable for the element with an index among those that have attributes to bind. -/
def targetName (index : Nat) : String := "_el$" ++ toString index

/-- The variable for a marker. -/
def markerName (index : Nat) : String := "_m$" ++ toString index

/-- The statement that finds the element at a path. -/
def targetLine (path : List Nat) (index : Nat) : String :=
  "const " ++ targetName index ++ " = _root$" ++ pathSteps path ++ ";"

/-- What a walk over the attributes of a block has found: the paths that it has resolved, with their
variables, the statements that declare these, and the variable of the element of each attribute. -/
structure Resolution where
  resolved : List (List Nat × String) := []
  lines : List String := []
  targets : List String := []

/-- Goes on to the path of an attribute. Each path is resolved once, and that of the root never. -/
def Resolution.add (found : Resolution) (path : List Nat) : Resolution :=
  if path.isEmpty then { found with targets := found.targets ++ ["_root$"] }
  else
    match found.resolved.find? (·.1 == path) with
    | some (_, name) => { found with targets := found.targets ++ [name] }
    | none =>
      let name := targetName found.resolved.length
      { resolved := found.resolved ++ [(path, name)]
        lines := found.lines ++ [targetLine path found.resolved.length]
        targets := found.targets ++ [name] }

/-- The statement that finds the marker of a point. -/
def searchLine (point : BindingPoint) (index : Nat) : String :=
  "const " ++ markerName index ++ " = _$findMarker(_root$, " ++ quote point.markerId ++ ");"

/-- The statement that finds the marker of a part. -/
def markerLine (part : Part) (index : Nat) : String := searchLine part.point index

/-- The value of a part. -/
def partValue (g : Emitters) (context : Context) : PartValue → Emit String
  | .expr e => g.expr context e
  | .spread e => g.expr context e
  | .markup m => g.markup m

/-- The statement that binds the attribute at a point to its value. -/
def setting (g : Emitters) (target : String) (point : BindingPoint) : Emit String := do
  match point.value with
  | .spread e =>
    return "_$effect(() => _$spread(" ++ target ++ ", " ++ (← g.expr .plain e) ++ "));"
  | value =>
    match eventName? point.name with
    | some event =>
      let value ← g.partValue .event value
      return "_$delegate(" ++ target ++ ", " ++ quote event ++ ", " ++ value ++ ");"
    | none =>
      let value ← g.partValue .plain value
      return "_$effect(() => _$setProp(" ++ target ++ ", " ++ quote point.name ++ ", " ++ value
        ++ "));"

/-- The statement that binds an attribute to its value. -/
def attributeBinding (g : Emitters) (target : String) (part : Part) : Emit String :=
  g.setting target part.point

/-- The parameters of the callback of a list, in parentheses. -/
def itemParams (g : Emitters) (item : ItemShape) : Emit String := do
  let text ← g.splice (.params item.paramSpan item.params)
  return if text.toList.head? == some '(' then text else "(" ++ text ++ ")"

/-- The key of an item, if it has one. -/
def itemKey? (g : Emitters) (e : Element) : Emit (Option String) := do
  match e.key? with
  | some (.expr key) => return some (← g.expr .callback key)
  | some (.text raw) => return some (quote (decode raw))
  | _ => return none

/-- Whether a value that is shown once may change later, so that its marker has to stay. -/
def mayChange : PartValue → Bool
  | .expr e => e.mayChange
  | .spread e => e.mayChange
  | .markup _ => false

/-- The statement that inserts a value at a marker. -/
def insertion (g : Emitters) (marker : String) (value : PartValue) : Emit String := do
  let text ← g.partValue .reactive value
  let removal := if mayChange value then "" else " " ++ marker ++ ".remove();"
  return "_$insert(" ++ marker ++ ".parentNode, " ++ text ++ ", " ++ marker ++ ");" ++ removal

/-- The statement that binds a list. -/
def listBinding (g : Emitters) (marker : String) (list : ListShape) : Emit String := do
  let array ← g.expr .reactive list.array
  let place := "(" ++ marker ++ ".parentNode, " ++ marker ++ ", " ++ array ++ ", "
  match list.callback.itemShape? with
  | none => return "_$mapArray" ++ place ++ (← g.expr .callback list.callback) ++ ");"
  | some item =>
    let params ← g.itemParams item
    let body ← if item.element.isComponent then g.component item.element
      else if item.element.isStatic then
        pure ("_$clone(" ++ (← staticTemplate item.element.staticHtml?) ++ ")")
      else pure ("\x7b\n" ++ (← g.block item.element) ++ "\x7d")
    let render := params ++ " => " ++ body
    match ← g.itemKey? item.element with
    | some key =>
      return "_$mapArrayKeyed" ++ place ++ render ++ ", " ++ params ++ " => " ++ key ++ ");"
    | none => return "_$mapArray" ++ place ++ render ++ ");"

/-- The statement that binds a value between tags. -/
def contentBinding (g : Emitters) (marker : String) (value : PartValue) : Emit String :=
  match value with
  | .expr e =>
    match e.listShape? with
    | some list => g.listBinding marker list
    | none => g.insertion marker (.expr e)
  | value => g.insertion marker value

/-- The statement that binds a child. -/
def childBinding (g : Emitters) (marker : String) (part : Part) : Emit String :=
  g.contentBinding marker part.value

/-- The block that clones a template and binds points of it. -/
def pointBindings (g : Emitters) (template : String) (points : List BindingPoint) :
    Emit String := do
  let attributes := points.filter BindingPoint.isAttribute
  let contents := points.filter (!·.isAttribute)
  let found := (attributes.map BindingPoint.path).foldl Resolution.add {}
  let markers := contents.zipIdx.map fun (_, index) => markerName index
  let settings ← (attributes.zip found.targets).mapM fun (point, target) => g.setting target point
  let insertions ← (contents.zip markers).mapM fun (point, marker) =>
    g.contentBinding marker point.value
  return blockText (["const _root$ = _$clone(" ++ template ++ ");"] ++ found.lines
    ++ contents.zipIdx.map (fun (point, index) => searchLine point index)
    ++ settings ++ insertions ++ ["return _root$;"])

/-- The block that clones a template and binds its parts. -/
def bindings (g : Emitters) (template : String) (parts : List Part) : Emit String :=
  g.pointBindings template (parts.map Part.point)

/-- The block of an element. -/
def elementBlock (g : Emitters) (e : Element) : Emit String := do
  let skeleton := e.skeleton 0
  let template ← internTemplate skeleton.templateHtml
  g.bindings template skeleton.parts

end Emitters

end MarkupCompiler
