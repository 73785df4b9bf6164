import MarkupCompiler.Syntax.Tree

/-!
# What can be assigned to

An assignment is read before it is known to be one, so that its left side is an expression at first.
The tests of this module tell whether that expression is a variable, a member or a pattern.
-/

namespace MarkupCompiler.Syntax

/-- Whether an expression is a variable or a member, perhaps in parentheses or with a type. -/
def Expr.isPlace : Expr → Bool
  | .ident _ _ | .member _ _ _ _ | .index _ _ _ _ => true
  | .paren _ inner => inner.isPlace
  | .typed _ (.instantiation _) _ => false
  | .typed _ _ inner => inner.isPlace
  | _ => false

/-- Whether an element of an array literal is spread. -/
def Item.isSpread : Item → Bool
  | .spread _ => true
  | _ => false

/-- Whether a property of an object literal is spread. -/
def Property.isSpread : Property → Bool
  | .spread _ => true
  | _ => false

mutual

/-- Whether an expression is a place or a pattern; `inPattern` tells whether it may have a
default. -/
def Expr.isTarget (inPattern : Bool) : Expr → Bool
  | .assign _ .plain target _ => inPattern && target.isTarget false
  | .array _ items => itemsAreTargets items
  | .object _ properties => propertiesAreTargets properties
  | e => e.isPlace

/-- Whether an element of an array literal may stand in a pattern. -/
def Item.isTarget : Item → Bool
  | .hole => true
  | .value value => value.isTarget true
  | .spread value => value.isTarget false

/-- Whether the elements of an array literal are those of a pattern. A spread is the last. -/
def itemsAreTargets : List Item → Bool
  | [] => true
  | first :: rest => first.isTarget && (rest.isEmpty || !first.isSpread) && itemsAreTargets rest

/-- Whether a property of an object literal may stand in a pattern. -/
def Property.isTarget : Property → Bool
  | .spread value => value.isPlace
  | .field _ _ value => value.isTarget true
  | .shorthand _ | .shorthandDefault _ _ => true
  | .method _ _ _ => false

/-- Whether the properties of an object literal are those of a pattern. A spread is the last. -/
def propertiesAreTargets : List Property → Bool
  | [] => true
  | first :: rest =>
    first.isTarget && (rest.isEmpty || !first.isSpread) && propertiesAreTargets rest

end

mutual

/-- The names that a pattern declares. -/
def Expr.boundNames : Expr → List String
  | .ident _ name => [name]
  | .assign _ _ target _ => target.boundNames
  | .array _ items => itemsBoundNames items
  | .object _ properties => propertiesBoundNames properties
  | _ => []

/-- The names that an element of an array pattern declares. -/
def Item.boundNames : Item → List String
  | .hole => []
  | .value value => value.boundNames
  | .spread value => value.boundNames

/-- The names that the elements of an array pattern declare. -/
def itemsBoundNames : List Item → List String
  | [] => []
  | first :: rest => first.boundNames ++ itemsBoundNames rest

/-- The names that a property of an object pattern declares. -/
def Property.boundNames : Property → List String
  | .spread value => value.boundNames
  | .field _ _ value => value.boundNames
  | .shorthand value => value.boundNames
  | .shorthandDefault name _ => name.boundNames
  | .method _ _ _ => []

/-- The names that the properties of an object pattern declare. -/
def propertiesBoundNames : List Property → List String
  | [] => []
  | first :: rest => first.boundNames ++ propertiesBoundNames rest

end

end MarkupCompiler.Syntax
