import MarkupCompiler.Compile.Options
import MarkupCompiler.Emit.TemplateTable
import MarkupCompiler.Text.Quoted

/-!
# The compiled module

In front of the code of a module stand an import of the helpers that it calls and the declarations
of its templates.
-/

namespace MarkupCompiler

open Text

/-- The helpers of client code, in the order in which they are imported. -/
def clientHelpers : List String :=
  ["template", "clone", "insert", "effect", "setProp", "delegate", "spread", "mapArray",
    "mapArrayKeyed", "findMarker", "unwrapProps", "unwrapComponent"]

/-- The helpers of server code, in the order in which they are imported. -/
def serverHelpers : List String :=
  ["ssr", "escape", "ssrAttr", "ssrSpread", "unwrapProps", "unwrapComponent"]

/-- The helpers of a target. -/
def Target.helpers : Target → List String
  | client => clientHelpers
  | server => serverHelpers

/-- Whether a helper is called in a text. -/
def callsHelper (text : List Char) (name : String) : Bool :=
  occurs ("_$" ++ name ++ "(").toList text

/-- The helpers that are called in some of several texts. -/
def usedHelpers (helpers : List String) (texts : List String) : List String :=
  helpers.filter fun name => texts.any fun text => callsHelper text.toList name

/-- The declaration of a template. On the client it is made from HTML, on the server it is an array
of chunks. -/
def declaration (target : Target) (name text : String) : String :=
  match target with
  | .client => "const " ++ name ++ " = _$template(" ++ quote text ++ ");"
  | .server => "const " ++ name ++ " = " ++ text ++ ";"

/-- The declarations of templates, a line each. -/
def declarations (target : Target) (table : TemplateTable) : String :=
  joinWith "\n" (table.entries.map fun (name, text) => declaration target name text)

/-- The import of helpers. -/
def importLine (names : List String) (moduleName : String) : String :=
  if names.isEmpty then ""
  else
    "import \x7b " ++ joinWith ", " (names.map fun name => name ++ " as _$" ++ name)
      ++ " \x7d from " ++ quote moduleName ++ ";\n"

/-- A compiled module: the import of its helpers, its templates and its body. -/
def assemble (options : CompileOptions) (table : TemplateTable) (body : String) : String :=
  let templates := declarations options.target table
  let used := usedHelpers options.target.helpers [templates, body]
  importLine used options.runtimeModule
    ++ (if templates.isEmpty then "" else templates ++ "\n") ++ body

end MarkupCompiler
