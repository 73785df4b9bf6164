import MarkupCompiler.Compile.Assembly
import MarkupCompiler.Compile.Error
import MarkupCompiler.Compile.FileId
import MarkupCompiler.Emit.Markup

/-!
# The compiler

A module is compiled by replacing each outermost piece of markup in it, from first to last, by the
code that makes it.
-/

namespace MarkupCompiler

open Syntax Grammar

/-- Whether a text may hold markup: an angle bracket before a letter or another angle bracket. -/
def containsMarkup : List Char → Bool
  | '<' :: c :: rest => c.isAlpha || c == '>' || containsMarkup (c :: rest)
  | _ :: rest => containsMarkup rest
  | [] => false

/-- What comes of a file: its code, nothing if there is nothing to do, or an error. -/
abbrev Outcome := Except CompileError (Option String)

/-- The code for each piece of markup. -/
def emitReplacements (markups : List Markup) : Emit (List Replacement) :=
  markups.mapM fun m => return ⟨m.span, (← emitMarkup m).toList⟩

/-- A compiler: its options and the templates of the module that it compiled last. -/
structure Compiler where
  options : CompileOptions
  templates : TemplateTable := {}

namespace Compiler

/-- The code of a module whose markup was replaced. -/
def finish (options : CompileOptions) (source : List Char) (table : TemplateTable) :
    List Replacement → Option String
  | [] => none
  | replacements =>
    let body := String.ofList (Replacement.applyAll 0 source replacements)
    some (assemble options table body)

/-- Compiles a file. The templates are reset for each file that may hold markup. -/
def compile (compiler : Compiler) (source fileId : String) : Outcome × Compiler :=
  let text := source.toList
  let options := compiler.options
  if containsMarkup text then
    let templates := compiler.templates.reset
    match parseModule (FileId.dialect fileId) text with
    | .error complaints => (.error (.ofDiagnostics fileId text complaints), ⟨options, templates⟩)
    | .ok m =>
      match (emitReplacements m.markups).runFrom ⟨text, options⟩ templates with
      | (.error error, table) => (.error (.ofEmit error fileId text), ⟨options, table⟩)
      | (.ok replacements, table) =>
        (.ok (finish options text table replacements), ⟨options, table⟩)
  else (.ok none, compiler)

/-- Compiles files in turn. -/
def compileAll (compiler : Compiler) : List (String × String) → List Outcome
  | [] => []
  | (source, fileId) :: files =>
    let (outcome, compiler) := compiler.compile source fileId
    outcome :: compiler.compileAll files

end Compiler

/-- Compiles a file with a compiler of its own. -/
def compile (source fileId : String) (options : CompileOptions) : Outcome :=
  (Compiler.compile ⟨options, {}⟩ source fileId).1

end MarkupCompiler
