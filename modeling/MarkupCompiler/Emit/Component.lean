import MarkupCompiler.Emit.Expression
import MarkupCompiler.Markup.Constant
import MarkupCompiler.Text.Lines

/-!
# Components

An element with the name of a component is a call of that component with its properties: the
attributes in their order, and then the children.
-/

namespace MarkupCompiler.Emitters

open Syntax Text

/-- Text between tags as a value, unless nothing is left of it. -/
def textValue? (raw : String) : Option String :=
  let text := clean raw
  if text.isEmpty then none else some (quote (decode text))

/-- A child as a value, unless nothing is left of it. A spread keeps its dots. -/
def childValue? (g : Emitters) : Child → Emit (Option String)
  | .text raw => return textValue? raw
  | .markup m => return some (← g.markup m)
  | .expr e => return some (← g.expr .reactive e)
  | .empty => return none
  | .spread e => return some ("..." ++ (← g.expr .plain e))

/-- Children as values. -/
def childValues (g : Emitters) (children : List Child) : Emit (List String) := do
  return (← children.mapM g.childValue?).filterMap id

/-- A condition that is handed over to be asked later. -/
def condition (g : Emitters) (e : Expr) : Emit String := do
  if e.isDeferred then g.expr .plain e else return "() => " ++ (← g.expr .callback e)

/-- The value of a property of a component. -/
def propertyValue (g : Emitters) (component name : String) : AttributeValue → Emit String
  | .bare => return "true"
  | .text raw => return quote (decode raw)
  | .markup m => g.markup m
  | .empty => return "undefined"
  | .expr e => do
    let options := (← read).options
    if component == options.conditionalComponent && name == options.conditionProp then
      g.condition e
    else if isEventName name then g.expr .event e
    else g.expr .reactive e

/-- What an attribute adds to the properties of a component: an entry, or all of an object. -/
inductive Addition where
  | entry (text : String)
  | object (text : String)

/-- What an attribute adds to the properties of a component. -/
def addition? (g : Emitters) (component : String) : Attribute → Emit (Option Addition)
  | .spread e => return some (.object (← g.expr .plain e))
  | .named name value => do
    if isIgnored name value then return none
    else
      let value ← g.propertyValue component name value
      return some (.entry (quoteUnless isName name ++ ": " ++ value))

/-- Whether a child is a spread. -/
def isSpreadChild : Child → Bool
  | .spread _ => true
  | _ => false

/-- What children add to the properties of a component: one child is handed over by itself, several
as an array. -/
def childrenAddition? (g : Emitters) (children : List Child) : Emit (Option Addition) := do
  match ← g.childValues children with
  | [] => return none
  | [value] =>
    let value := if children.any isSpreadChild then "[" ++ value ++ "]" else value
    return some (.entry ("children: " ++ value))
  | values => return some (.entry ("children: [" ++ joinWith ", " values ++ "]"))

/-- Gathers neighbouring entries into objects; `entries` are those before, the last first. -/
def gather : List String → List Addition → List String
  | [], [] => []
  | entries, [] => [braced entries.reverse]
  | entries, .entry text :: rest => gather (text :: entries) rest
  | [], .object text :: rest => text :: gather [] rest
  | entries, .object text :: rest => braced entries.reverse :: text :: gather [] rest

/-- Whether an addition is all of an object. -/
def Addition.isObject : Addition → Bool
  | entry _ => false
  | object _ => true

/-- The properties of a component as one object. Later ones win over earlier ones. -/
def properties (additions : List Addition) : String :=
  if additions.any Addition.isObject then
    "Object.assign(\x7b\x7d, " ++ joinWith ", " (gather [] additions) ++ ")"
  else
    match gather [] additions with
    | [object] => object
    | _ => braced []

/-- A call of a component. -/
def component (g : Emitters) (e : Element) : Emit String := do
  let name := e.tag.text
  let fromAttributes ← e.attributes.mapM (g.addition? name)
  let fromChildren ← g.childrenAddition? e.children
  let additions := (fromAttributes ++ [fromChildren]).filterMap id
  return "_$unwrapComponent(" ++ name ++ "(_$unwrapProps(" ++ properties additions ++ ")))"

/-- A fragment is the array of its children. -/
def fragment (g : Emitters) (children : List Child) : Emit String := do
  return "[" ++ joinWith ", " (← g.childValues children) ++ "]"

end MarkupCompiler.Emitters
