import MarkupCompiler.Compile.Options
import MarkupCompiler.Json.Reader
import MarkupCompiler.Json.Record
import MarkupCompiler.Text.Letter

/-!
# Options of the host

A host hands over its options as the text of a JSON record.
-/

namespace MarkupCompiler

/-- Which files a host has compiled, and how. -/
structure HostOptions where
  /-- The extensions of the files to compile. -/
  extensions : List String := ["jsx", "tsx"]
  /-- The names of the directories whose files are left alone. -/
  excludeDirs : List String := ["node_modules"]
  compile : CompileOptions := {}
  deriving DecidableEq, Repr, Inhabited

/-- Reads a target from JSON. -/
def Target.ofJson? : Json → Option Target :=
  Json.choice? [("client", .client), ("server", .server)]

/-- The name of a target. -/
def Target.text : Target → String
  | client => "client"
  | server => "server"

/-- Reads the options of the compiler from JSON. -/
def CompileOptions.ofJson? (json : Json) : Option CompileOptions := do
  let default : CompileOptions := {}
  let names := ["target", "moduleName", "serverModuleName", "conditionalComponent",
    "conditionProp"]
  match ← json.fields? names with
  | [target, moduleName, serverModuleName, conditionalComponent, conditionProp] =>
    return {
      target := ← Json.fieldOr default.target Target.ofJson? target
      moduleName := ← Json.fieldOr default.moduleName Json.string? moduleName
      serverModuleName := ← Json.fieldOr default.serverModuleName Json.string? serverModuleName
      conditionalComponent :=
        ← Json.fieldOr default.conditionalComponent Json.string? conditionalComponent
      conditionProp := ← Json.fieldOr default.conditionProp Json.string? conditionProp }
  | _ => none

/-- The options of the compiler in JSON. -/
def CompileOptions.toJson (options : CompileOptions) : Json :=
  .object [("target", .string options.target.text), ("moduleName", .string options.moduleName),
    ("serverModuleName", .string options.serverModuleName),
    ("conditionalComponent", .string options.conditionalComponent),
    ("conditionProp", .string options.conditionProp)]

namespace HostOptions

/-- Reads options from JSON. -/
def ofJson? (json : Json) : Option HostOptions := do
  let default : HostOptions := {}
  match ← json.fields? ["extensions", "excludeDirs", "compile"] with
  | [extensions, excludeDirs, compile] =>
    return {
      extensions := ← Json.fieldOr default.extensions (Json.list? Json.string?) extensions
      excludeDirs := ← Json.fieldOr default.excludeDirs (Json.list? Json.string?) excludeDirs
      compile := ← Json.fieldOr default.compile CompileOptions.ofJson? compile }
  | _ => none

/-- Reads options from a text; a blank text stands for the defaults. -/
def parse? (text : List Char) : Option HostOptions :=
  if text.all Text.isBlank then some {} else (Json.parse? text).bind ofJson?

/-- Options in JSON. -/
def toJson (options : HostOptions) : Json :=
  .object [("extensions", .array (options.extensions.map .string)),
    ("excludeDirs", .array (options.excludeDirs.map .string)),
    ("compile", options.compile.toJson)]

end HostOptions

end MarkupCompiler
