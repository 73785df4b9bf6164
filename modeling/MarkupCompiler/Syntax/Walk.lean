import MarkupCompiler.Syntax.Tree

/-!
# Markup in a tree

`markups` lists the outermost markup of a part of a tree in source order: markup that stands in
other markup is not listed. `depth` bounds how deep the parts of a tree stand in one another.
-/

namespace MarkupCompiler.Syntax

mutual

/-- The outermost markup of an expression. -/
def Expr.markups : Expr → List Markup
  | .literal _ _ | .ident _ _ | .metaProperty _ _ _ | .superRef _ | .thisRef _ => []
  | .template _ _ es | .sequence _ es => exprsMarkups es
  | .array _ items => itemsMarkups items
  | .object _ properties => propertiesMarkups properties
  | .arrow _ _ _ params body | .function _ _ _ params body => exprsMarkups params ++ body.markups
  | .classExpr _ parts => stmtsMarkups parts
  | .update _ _ _ e | .unary _ _ e | .hasPrivate _ _ e | .await _ e | .chain _ e | .paren _ e
  | .member _ e _ _ | .typed _ _ e => e.markups
  | .assign _ _ e e' | .binary _ _ e e' | .index _ e e' _ => e.markups ++ e'.markups
  | .conditional _ test consequent alternate =>
    test.markups ++ (consequent.markups ++ alternate.markups)
  | .yield _ _ operand => optionMarkups operand
  | .call _ callee _ arguments _ | .construct _ callee _ arguments =>
    callee.markups ++ itemsMarkups arguments
  | .importCall _ _ source options => source.markups ++ optionMarkups options
  | .tagged _ tag _ _ values => tag.markups ++ exprsMarkups values
  | .markup m => [m]

/-- The outermost markup of an expression that may be missing. -/
def optionMarkups : Option Expr → List Markup
  | none => []
  | some e => e.markups

/-- The outermost markup of expressions. -/
def exprsMarkups : List Expr → List Markup
  | [] => []
  | e :: es => e.markups ++ exprsMarkups es

/-- The outermost markup of an array element or argument. -/
def Item.markups : Item → List Markup
  | .hole => []
  | .value value | .spread value => value.markups

/-- The outermost markup of array elements or arguments. -/
def itemsMarkups : List Item → List Markup
  | [] => []
  | item :: items => item.markups ++ itemsMarkups items

/-- The outermost markup of a property. -/
def Property.markups : Property → List Markup
  | .spread value | .shorthand value => value.markups
  | .field key _ value | .shorthandDefault key value | .method _ key value =>
    key.markups ++ value.markups

/-- The outermost markup of properties. -/
def propertiesMarkups : List Property → List Markup
  | [] => []
  | property :: properties => property.markups ++ propertiesMarkups properties

/-- The outermost markup of the body of a function. -/
def Body.markups : Body → List Markup
  | .missing => []
  | .expr value => value.markups
  | .block _ statements => stmtsMarkups statements

/-- The outermost markup of a statement. -/
def Stmt.markups : Stmt → List Markup
  | .expr _ value | .operand value => value.markups
  | .directive _ => []
  | .ret _ value => optionMarkups value
  | .compound _ parts => stmtsMarkups parts

/-- The outermost markup of statements. -/
def stmtsMarkups : List Stmt → List Markup
  | [] => []
  | s :: ss => s.markups ++ stmtsMarkups ss

end

mutual

/-- How deep the parts of an expression stand in one another. -/
def Expr.depth : Expr → Nat
  | .literal _ _ | .ident _ _ | .metaProperty _ _ _ | .superRef _ | .thisRef _ => 1
  | .template _ _ es | .sequence _ es => exprsDepth es + 1
  | .array _ items => itemsDepth items + 1
  | .object _ properties => propertiesDepth properties + 1
  | .arrow _ _ _ params body | .function _ _ _ params body =>
    max (exprsDepth params) body.depth + 1
  | .classExpr _ parts => stmtsDepth parts + 1
  | .update _ _ _ e | .unary _ _ e | .hasPrivate _ _ e | .await _ e | .chain _ e | .paren _ e
  | .member _ e _ _ | .typed _ _ e => e.depth + 1
  | .assign _ _ e e' | .binary _ _ e e' | .index _ e e' _ => max e.depth e'.depth + 1
  | .conditional _ test consequent alternate =>
    max test.depth (max consequent.depth alternate.depth) + 1
  | .yield _ _ operand => optionDepth operand + 1
  | .call _ callee _ arguments _ | .construct _ callee _ arguments =>
    max callee.depth (itemsDepth arguments) + 1
  | .importCall _ _ source options => max source.depth (optionDepth options) + 1
  | .tagged _ tag _ _ values => max tag.depth (exprsDepth values) + 1
  | .markup m => m.depth + 1

/-- The depth of an expression that may be missing. -/
def optionDepth : Option Expr → Nat
  | none => 0
  | some e => e.depth

/-- The greatest depth of expressions. -/
def exprsDepth : List Expr → Nat
  | [] => 0
  | e :: es => max e.depth (exprsDepth es)

/-- The depth of an array element or argument. -/
def Item.depth : Item → Nat
  | .hole => 0
  | .value value | .spread value => value.depth

/-- The greatest depth of array elements or arguments. -/
def itemsDepth : List Item → Nat
  | [] => 0
  | item :: items => max item.depth (itemsDepth items)

/-- The depth of a property. -/
def Property.depth : Property → Nat
  | .spread value | .shorthand value => value.depth
  | .field key _ value | .shorthandDefault key value | .method _ key value =>
    max key.depth value.depth

/-- The greatest depth of properties. -/
def propertiesDepth : List Property → Nat
  | [] => 0
  | property :: properties => max property.depth (propertiesDepth properties)

/-- The depth of the body of a function. -/
def Body.depth : Body → Nat
  | .missing => 0
  | .expr value => value.depth
  | .block _ statements => stmtsDepth statements

/-- The depth of a statement. -/
def Stmt.depth : Stmt → Nat
  | .expr _ value | .operand value => value.depth + 1
  | .directive _ => 0
  | .ret _ value => optionDepth value + 1
  | .compound _ parts => stmtsDepth parts + 1

/-- The greatest depth of statements. -/
def stmtsDepth : List Stmt → Nat
  | [] => 0
  | s :: ss => max s.depth (stmtsDepth ss)

/-- The depth of markup. -/
def Markup.depth : Markup → Nat
  | .element element => element.depth + 1
  | .fragment _ children => childrenDepth children + 1

/-- The depth of an element. -/
def Element.depth : Element → Nat
  | .mk _ _ attributes children => max (attributesDepth attributes) (childrenDepth children) + 1

/-- The depth of an attribute. -/
def Attribute.depth : Attribute → Nat
  | .spread value => value.depth
  | .named _ value => value.depth

/-- The greatest depth of attributes. -/
def attributesDepth : List Attribute → Nat
  | [] => 0
  | first :: rest => max first.depth (attributesDepth rest)

/-- The depth of the value of an attribute. -/
def AttributeValue.depth : AttributeValue → Nat
  | .bare | .text _ | .empty => 0
  | .expr value => value.depth
  | .markup m => m.depth

/-- The depth of a child. -/
def Child.depth : Child → Nat
  | .text _ | .empty => 0
  | .markup m => m.depth
  | .expr value | .spread value => value.depth

/-- The greatest depth of children. -/
def childrenDepth : List Child → Nat
  | [] => 0
  | child :: children => max child.depth (childrenDepth children)

end

/-- The outermost markup of a module. -/
def Module.markups (m : Module) : List Markup := stmtsMarkups m.statements

end MarkupCompiler.Syntax
