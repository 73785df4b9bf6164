import MarkupCompiler.Syntax.Tree

/-!
# Reactive values

A value that may change while the program runs is read by calling an accessor. Where the runtime
watches a value, a call of an accessor is replaced by the accessor itself. These tests tell from the
form of an expression alone which calls read accessors and which values may change.
-/

namespace MarkupCompiler.Syntax

/-- Objects whose methods never read a reactive value. -/
def plainObjects : List String :=
  ["Math", "Date", "console", "performance", "JSON", "Object", "Array", "Number", "String",
    "Boolean", "Symbol", "BigInt", "Promise", "Reflect", "Intl", "crypto", "window", "document",
    "globalThis", "navigator", "localStorage", "sessionStorage"]

/-- Functions that never read a reactive value. -/
def plainFunctions : List String :=
  ["setTimeout", "setInterval", "clearTimeout", "clearInterval", "requestAnimationFrame",
    "cancelAnimationFrame", "queueMicrotask", "fetch", "alert", "confirm", "prompt",
    "structuredClone", "parseInt", "parseFloat", "isNaN", "isFinite", "encodeURIComponent",
    "decodeURIComponent", "encodeURI", "decodeURI"]

namespace Expr

/-- Whether an expression is a path of members that starts at `this` or at a variable that is none
of the plain objects. -/
def isReactivePath : Expr → Bool
  | .member _ owner _ _ => owner.isReactivePath
  | .index _ owner _ _ => owner.isReactivePath
  | .ident _ name => !plainObjects.contains name
  | .thisRef _ => true
  | _ => false

/-- Whether a call of an expression without arguments reads an accessor. -/
def isAccessor : Expr → Bool
  | .ident _ name => !plainFunctions.contains name && !plainObjects.contains name
  | .member _ owner _ _ => owner.isReactivePath
  | .index _ owner _ _ => owner.isReactivePath
  | _ => false

/-- Whether an expression is a variable or a member. -/
def isReference : Expr → Bool
  | .ident _ _ | .member _ _ _ _ | .index _ _ _ _ => true
  | _ => false

/-- Whether the value of an expression may change after it was first shown. -/
def mayChange : Expr → Bool
  | .ident _ _ | .member _ _ _ _ | .index _ _ _ _ => true
  | .arrow _ _ _ _ _ | .function _ _ _ _ _ => true
  | .call _ callee _ _ _ => callee.unparenthesized.isReference
  | .chain _ (.call _ callee _ _ _) => callee.isReference
  | .chain _ _ => true
  | .paren _ inner => inner.mayChange
  | .typed _ (.asType _) inner => inner.mayChange
  | .typed _ (.satisfies _) inner => inner.mayChange
  | .typed _ .nonNull inner => inner.mayChange
  | _ => false

/-- Whether an expression can be handed over as it is where its value is needed later: it is a
reference or a function, perhaps in parentheses. -/
def isDeferred (e : Expr) : Bool :=
  match e.unparenthesized with
  | .arrow _ _ _ _ _ | .function _ _ _ _ _ => true
  | inner => inner.isReference

end Expr

end MarkupCompiler.Syntax
