/-!
# Options of the compiler
-/

namespace MarkupCompiler

/-- Where the compiled code runs. -/
inductive Target where
  | client
  | server
  deriving DecidableEq, Repr, Inhabited

/-- What can be chosen about the compiled code. -/
structure CompileOptions where
  target : Target := .client
  /-- The module that the helpers of client code come from. -/
  moduleName : String := "sprig/dom"
  /-- The module that the helpers of server code come from. -/
  serverModuleName : String := "sprig/server"
  /-- The component whose condition is handed over as a function. -/
  conditionalComponent : String := "Show"
  /-- The property of that component that holds the condition. -/
  conditionProp : String := "when"
  deriving DecidableEq, Repr, Inhabited

/-- The module that the helpers come from. -/
def CompileOptions.runtimeModule (options : CompileOptions) : String :=
  match options.target with
  | .client => options.moduleName
  | .server => options.serverModuleName

/-- Whether the code runs on a server. -/
def CompileOptions.isServer (options : CompileOptions) : Bool := options.target == .server

end MarkupCompiler
