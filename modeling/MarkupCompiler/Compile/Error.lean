import MarkupCompiler.Emit.Basic
import MarkupCompiler.Json.Record
import MarkupCompiler.Syntax.Diagnostic
import MarkupCompiler.Text.Location

/-!
# Errors of the compiler

What a host is told about a file that cannot be compiled.
-/

namespace MarkupCompiler

open Syntax

/-- The kinds of errors. -/
inductive ErrorCode where
  | parse
  | positionLost
  | unclassified
  deriving DecidableEq, Repr, Inhabited

/-- The name of a kind of errors. -/
def ErrorCode.text : ErrorCode → String
  | parse => "PARSE_ERROR"
  | positionLost => "POSITION_LOST"
  | unclassified => "INTERNAL_ERROR"

/-- An error in a file. -/
structure CompileError where
  fileId : String
  code : ErrorCode
  message : String
  location : Option Location := none
  cause : Option String := none
  deriving DecidableEq, Repr, Inhabited

namespace CompileError

/-- The error that diagnostics of a source amount to. The first one gives its message and place, all
of them its cause. -/
def ofDiagnostics (fileId : String) (source : List Char) : List Diagnostic → CompileError
  | [] => { fileId, code := .parse, message := "parser aborted" }
  | first :: rest =>
    { fileId
      code := .parse
      message := first.message
      location := some (Location.ofOffset source first.offset)
      cause := some (Text.joinWith "; " ((first :: rest).map Diagnostic.message)) }

/-- The error that a failure to emit code amounts to. A lost position is located if its span is in
order and within the source. -/
def ofEmit (error : EmitError) (fileId : String) (source : List Char) : CompileError :=
  match error with
  | .positionLost span =>
    { fileId
      code := .positionLost
      message := error.message
      location :=
        if span.start ≤ span.stop ∧ span.stop ≤ Text.byteLength source then
          some (Location.ofOffset source span.start)
        else none }
  | _ => { fileId, code := .unclassified, message := error.message }

/-- An error as a line of text. -/
def display (error : CompileError) : String :=
  let place := match error.location with
    | some location => " (" ++ toString location.line ++ ":" ++ toString location.column ++ ")"
    | none => ""
  "[" ++ error.code.text ++ "] " ++ error.fileId ++ ": " ++ error.message ++ place

end CompileError

/-- A location in JSON. -/
def Location.toJson (location : Location) : Json :=
  .object [("line", .ofNat location.line), ("column", .ofNat location.column)]

/-- Reads a location from JSON. -/
def Location.ofJson? (json : Json) : Option Location := do
  match ← json.fields? ["line", "column"] with
  | [line, column] => return ⟨← Json.fieldOf Json.word32? line, ← Json.fieldOf Json.word32? column⟩
  | _ => none

/-- Reads a kind of errors from JSON. -/
def ErrorCode.ofJson? : Json → Option ErrorCode :=
  Json.choice? ([ErrorCode.parse, .positionLost, .unclassified].map fun code => (code.text, code))

namespace CompileError

/-- An error in JSON. -/
def toJson (error : CompileError) : Json :=
  .object [("fileId", .string error.fileId), ("code", .string error.code.text),
    ("message", .string error.message), ("location", .ofOption Location.toJson error.location),
    ("cause", .ofOption .string error.cause)]

/-- Reads an error from JSON. In an object, the location and the cause may be left out. -/
def ofJson? (json : Json) : Option CompileError := do
  match ← json.fields? ["fileId", "code", "message", "location", "cause"] with
  | [fileId, code, message, location, cause] =>
    if json.isArray && cause.isNone then none
    else
      return {
        fileId := ← Json.fieldOf Json.string? fileId
        code := ← Json.fieldOf ErrorCode.ofJson? code
        message := ← Json.fieldOf Json.string? message
        location := ← Json.fieldOr none (Json.optional? Location.ofJson?) location
        cause := ← Json.fieldOr none (Json.optional? Json.string?) cause }
  | _ => none

end CompileError

end MarkupCompiler
