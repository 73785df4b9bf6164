import MarkupCompiler.Compile.Compiler
import MarkupCompiler.Host.Options

/-!
# Compiling for a host

A host offers files, and those that its options choose are compiled.
-/

namespace MarkupCompiler

/-- A file that a host offers. -/
structure SourceFile where
  id : String
  code : String
  deriving DecidableEq, Repr, Inhabited

/-- A file and what came of it. -/
structure FileOutcome where
  id : String
  result : Outcome

namespace HostOptions

/-- Whether a file is to be compiled: its extension is one of those listed, and no directory along
its path is excluded. -/
def chooses (options : HostOptions) (id : String) : Bool :=
  let path := FileId.pathOf id.toList
  options.extensions.contains (FileId.extension path)
    && !(FileId.splitAt (fun c => c == '/' || c == '\\') path).any
      fun name => options.excludeDirs.contains (String.ofList name)

/-- The options of the compiler for a server or a client. -/
def compileFor (options : HostOptions) (isServer : Bool) : CompileOptions :=
  { options.compile with target := if isServer then .server else .client }

/-- Compiles a file if it is chosen. -/
def transform (options : HostOptions) (isServer : Bool) (file : SourceFile) : Outcome :=
  if options.chooses file.id then
    MarkupCompiler.compile file.code file.id (options.compileFor isServer)
  else .ok none

/-- Compiles files, each by itself. -/
def transformAll (options : HostOptions) (isServer : Bool) (files : List SourceFile) :
    List FileOutcome :=
  files.map fun file => ⟨file.id, options.transform isServer file⟩

end HostOptions

end MarkupCompiler
