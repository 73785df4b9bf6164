import MarkupCompiler.Syntax.Tree
import MarkupCompiler.Text.Letter

/-!
# Names in markup

What the names of tags and attributes mean: which tags call a component, which elements of HTML have
no content, which attributes listen to an event, and what an attribute is called in HTML.
-/

namespace MarkupCompiler.Syntax

/-- The tags of the elements that have neither content nor a closing tag. -/
def voidTags : List String :=
  ["area", "base", "br", "col", "embed", "hr", "img", "input", "link", "meta", "param", "source",
    "track", "wbr"]

/-- Whether elements with a tag have neither content nor a closing tag. -/
def isVoidTag (tag : String) : Bool := voidTags.contains tag

/-- Whether a plain tag names a component: its first character is a capital. -/
def isComponentTag (tag : String) : Bool := tag.toList.head?.any Text.isCapital

/-- Whether a tag names a component. Paths and `this` always do, names with a namespace never. -/
def TagName.isComponent : TagName → Bool
  | plain name => isComponentTag name
  | namespaced _ _ => false
  | path _ _ | self => true

/-- Whether an element calls a component. -/
def Element.isComponent (e : Element) : Bool := e.tag.isComponent

/-- The event that an attribute listens to. After `on:` the event is named as it is; after `on`
alone it begins with a capital and is put in small letters. -/
def eventName? (name : String) : Option String :=
  match name.toList with
  | 'o' :: 'n' :: c :: rest =>
    if c == ':' then if rest.isEmpty then none else some (String.ofList rest)
    else if c.isUpper then some (String.ofList ((c :: rest).map Char.toLower))
    else none
  | _ => none

/-- Whether an attribute listens to an event. -/
def isEventName (name : String) : Bool := (eventName? name).isSome

/-- The name of an attribute in HTML. -/
def htmlName (name : String) : String :=
  if name == "className" then "class"
  else if name == "htmlFor" then "for"
  else name

end MarkupCompiler.Syntax
