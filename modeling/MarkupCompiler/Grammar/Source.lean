import MarkupCompiler.Grammar.Expression
import MarkupCompiler.Grammar.Markup
import MarkupCompiler.Grammar.Statement

/-!
# Whole modules

The rules of the grammar are tied together here. A rule that stands for the parts of a construct is
the same grammar with one level of nesting less to go, and a text cannot nest deeper than it is
long.
-/

namespace MarkupCompiler.Grammar

open Syntax

/-- Which kinds of syntax a source may use beside that of plain modules. -/
structure Dialect where
  types : Bool
  markup : Bool
  deriving DecidableEq, Repr, Inhabited

namespace Rules

/-- The rules for constructs that nest at most `depth` deep. -/
def bounded : Nat → Rules
  | 0 =>
    { assignment := failHere .tooDeep
      binary := fun _ => failHere .tooDeep
      unary := failHere .tooDeep
      leftHandSide := failHere .tooDeep
      callee := failHere .tooDeep
      binding := failHere .tooDeep
      type := failHere .tooDeep
      params := failHere .tooDeep
      classLike := failHere .tooDeep
      statement := failHere .tooDeep
      markup := failHere .tooDeep }
  | depth + 1 =>
    { assignment := fun scope cursor => (bounded depth).assigned scope cursor
      binary := fun level scope cursor => (bounded depth).operation level scope cursor
      unary := fun scope cursor => (bounded depth).prefixed scope cursor
      leftHandSide := fun scope cursor => (bounded depth).memberOrCall scope cursor
      callee := fun scope cursor => (bounded depth).constructed scope cursor
      binding := fun scope cursor => (bounded depth).bindingTarget scope cursor
      type := fun scope cursor => (bounded depth).anyType scope cursor
      params := fun scope cursor => (bounded depth).parameterList scope cursor
      classLike := fun scope cursor => (bounded depth).classFrom scope cursor
      statement := fun scope cursor => (bounded depth).anyStatement scope cursor
      markup := fun scope cursor => (bounded depth).markupLike scope cursor }

/-- The statements of a whole module. -/
def moduleStatements (r : Rules) : Parser Module := do
  let statements ← r.bodyStatements
  if (← token).kind != .finish then unexpected
  return ⟨statements⟩

end Rules

/-- The part of a text before its first statement that no token belongs to: a first line that names
the program to run it with. -/
def commandLine : List Char → List Char
  | '#' :: '!' :: rest => '#' :: '!' :: rest.takeWhile fun c => !isLineEnd c
  | _ => []

/-- The cursor at the front of a text. -/
def Cursor.atFront (text : List Char) : Cursor :=
  let skipped := commandLine text
  let offset := Text.byteLength skipped
  let (token, here, after) := readToken offset (text.drop skipped.length)
  { token, here, after, lastStop := offset, defaults := [], exports := [], noted := [] }

/-- A module that was read, and the complaints that did not keep it from being read. -/
structure Reading where
  module : Module
  noted : List Diagnostic

/-- The names that were exported before, the first first. -/
def duplicates : List String → List (String × Nat) → List (String × Nat)
  | _, [] => []
  | before, (name, offset) :: rest =>
    if before.contains name then (name, offset) :: duplicates before rest
    else duplicates (name :: before) rest

/-- The complaints that a cursor at the end of a text holds, in the order in which they were made.
Where types may be written a name may be exported more than once. -/
def Cursor.complaints (cursor : Cursor) (types : Bool) : List Diagnostic :=
  let defaults := cursor.defaults.reverse.map fun offset => ⟨.broken .objectDefault, offset⟩
  let repeated := if types then [] else duplicates [] cursor.exports.reverse
  cursor.noted.reverse ++ defaults
    ++ repeated.map fun (name, offset) => ⟨.broken (.duplicateExport name), offset⟩

/-- Reads a module. -/
def readModule (dialect : Dialect) (text : List Char) : Except (List Diagnostic) Reading :=
  let rules := Rules.bounded (8 * text.length + 32)
  let scope : Scope := { types := dialect.types, markup := dialect.markup }
  match rules.moduleStatements scope (Cursor.atFront text) with
  | .ok (m, cursor) => .ok ⟨m, cursor.complaints dialect.types⟩
  | .error complaints => .error complaints

/-- Reads a module in which nothing is to be complained of. -/
def parseModule (dialect : Dialect) (text : List Char) : Except (List Diagnostic) Module := do
  let reading ← readModule dialect text
  if reading.noted.isEmpty then return reading.module else throw reading.noted

end MarkupCompiler.Grammar
