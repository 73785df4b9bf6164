import MarkupCompiler.Markup.Name
import MarkupCompiler.Number.Printed
import MarkupCompiler.Text.Entity

/-!
# Values that are known when the markup is compiled

An attribute whose value is a literal is written into the HTML of its template. An element is
static if all its attributes are of that kind and its children are text and static elements; the
template is then all there is to it.
-/

namespace MarkupCompiler.Syntax

/-- A value that is known when the markup is compiled. -/
inductive Constant where
  | text (value : String)
  | number (value : Binary64)
  | boolean (value : Bool)
  /-- `null` or `undefined`. -/
  | nullish
  deriving DecidableEq, Repr, Inhabited

/-- How an attribute stands in HTML: left out, as its name alone, or with a value. -/
inductive AttributeText where
  | omitted
  | bare
  | quoted (value : String)
  deriving DecidableEq, Repr, Inhabited

/-- How an attribute with a constant value stands in HTML. -/
def Constant.attributeText : Constant → AttributeText
  | text value => .quoted value
  | number value => .quoted value.print
  | boolean true => .bare
  | boolean false | nullish => .omitted

/-- The text of a template literal without expressions. -/
def quasisText : List Quasi → String
  | [] => ""
  | quasi :: quasis => quasi.cooked.getD quasi.raw ++ quasisText quasis

/-- The value of an expression that is a literal, perhaps in parentheses. -/
def Expr.constant? : Expr → Option Constant
  | .literal _ (.string value) => some (.text value)
  | .literal _ (.number value) => some (.number value)
  | .literal _ (.boolean value) => some (.boolean value)
  | .literal _ .null => some .nullish
  | .ident _ name => if name == "undefined" then some .nullish else none
  | .template _ quasis [] => some (.text (quasisText quasis))
  | .paren _ inner => inner.constant?
  | _ => none

namespace AttributeValue

/-- The value of an attribute that is a literal. An attribute without a value is true. -/
def constant? : AttributeValue → Option Constant
  | .bare => some (.boolean true)
  | .text raw => some (.text (Text.decode raw))
  | .expr value => value.constant?
  | .empty | .markup _ => none

/-- Whether an attribute has braces with nothing in them. -/
def isEmpty : AttributeValue → Bool
  | .empty => true
  | _ => false

end AttributeValue

/-- Whether an attribute never reaches the document: the key of a list item, or empty braces. -/
def isIgnored (name : String) (value : AttributeValue) : Bool := name == "key" || value.isEmpty

/-- Whether the value of an attribute is known, or does not matter. -/
def Attribute.isStatic : Attribute → Bool
  | .spread _ => false
  | .named name value => isIgnored name value || value.constant?.isSome

mutual

/-- Whether an element can be written as HTML once and for all. -/
def Element.isStatic : Element → Bool
  | .mk _ tag attributes children =>
    !tag.isComponent && attributes.all Attribute.isStatic && childrenAreStatic children

/-- Whether markup is a static element. -/
def Markup.isStatic : Markup → Bool
  | .element e => e.isStatic
  | .fragment _ _ => false

/-- Whether a child is text, a static element or a comment in braces. -/
def Child.isStatic : Child → Bool
  | .text _ | .empty => true
  | .markup m => m.isStatic
  | .expr _ | .spread _ => false

/-- Whether all children are static. -/
def childrenAreStatic : List Child → Bool
  | [] => true
  | child :: children => child.isStatic && childrenAreStatic children

end

end MarkupCompiler.Syntax
