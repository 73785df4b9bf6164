import MarkupCompiler.Syntax.Token

/-!
# Diagnostics

What can be wrong with the text of a module, and the words in which it is told.
-/

namespace MarkupCompiler.Syntax

/-- Rules that a construct can break although its tokens are in place. -/
inductive Rule where
  | initializer
  | objectDefault
  | templateEscape
  | awaitPlace
  | returnPlace
  | mixedCoalesce
  | restPlace
  | loopVariable
  | loopAsync
  | declarationPlace
  | getterParameters
  | setterParameters
  | constructorForm
  | prototypeMember
  | exportedName
  | superPlace
  | duplicateExport (name : String)
  deriving DecidableEq, Repr, Inhabited

/-- Why a text is not a module. -/
inductive Complaint where
  /-- A token that cannot stand where it does. -/
  | unexpected
  /-- One token where another has to stand. -/
  | expected (wanted found : String)
  /-- A list that neither goes on nor ends. -/
  | expectedEither (separator closing found : String)
  /-- A closing tag of another name than the opening tag. -/
  | closingTag (opening : String)
  /-- A closing tag with a name, where a fragment was opened. -/
  | closingFragment
  /-- A brace or an angle bracket in the text between tags. -/
  | looseBrace
  | looseAngle
  /-- An attribute with nothing between its braces. -/
  | emptyAttribute
  | missingSemicolon
  /-- Something on the left of an assignment that cannot stand there. -/
  | badTarget
  | broken (rule : Rule)
  | lexical (fault : Fault)
  /-- Constructs nested deeper than the length of the text allows. -/
  | tooDeep
  deriving DecidableEq, Repr, Inhabited

/-- What a malformed stretch of text is called. -/
def Fault.message : Fault → String
  | unterminatedString => "Unterminated string"
  | unterminatedComment => "Unterminated multiline comment"
  | unterminatedPattern => "Unterminated regular expression"
  | badPatternFlag => "Unexpected flag in regular expression literal"
  | badNumber => "Invalid characters after number"
  | badEscape => "Invalid Unicode escape sequence"
  | badCharacter c => "Invalid Character `" ++ String.singleton c ++ "`"

/-- The words for a broken rule. -/
def Rule.message : Rule → String
  | initializer => "Missing initializer in const declaration"
  | objectDefault => "Invalid assignment in object literal"
  | templateEscape => "Bad escape sequence in untagged template literal"
  | awaitPlace =>
    "`await` is only allowed within async functions and at the top levels of modules"
  | returnPlace => "A 'return' statement can only be used within a function body."
  | mixedCoalesce => "Logical expressions and coalesce expressions cannot be mixed"
  | restPlace => "A rest element must be last in a destructuring pattern"
  | loopVariable => "Invalid variable declaration in the head of a for loop"
  | loopAsync => "The left-hand side of a `for...of` statement may not be `async`"
  | declarationPlace => "Lexical declaration cannot appear in a single-statement context"
  | getterParameters => "A 'get' accessor must not have any formal parameters."
  | setterParameters => "A 'set' accessor must have exactly one parameter."
  | constructorForm => "Classes can't have such an element named 'constructor'"
  | prototypeMember => "Classes may not have a static property named prototype"
  | exportedName => "A local name cannot be exported under a reserved word or string"
  | superPlace => "'super' can only be used with function calls or in property accesses"
  | duplicateExport name => "Duplicated export '" ++ name ++ "'"

/-- The words of a complaint. -/
def Complaint.message : Complaint → String
  | unexpected => "Unexpected token"
  | expected wanted found => "Expected `" ++ wanted ++ "` but found `" ++ found ++ "`"
  | expectedEither separator closing found =>
    "Expected `" ++ separator ++ "` or `" ++ closing ++ "` but found `" ++ found ++ "`"
  | closingTag opening => "Expected corresponding JSX closing tag for '" ++ opening ++ "'."
  | closingFragment => "Expected corresponding closing tag for JSX fragment."
  | looseBrace => "Unexpected token. Did you mean `\x7b'\x7d'\x7d` or `&rbrace;`?"
  | looseAngle => "Unexpected token. Did you mean `\x7b'>'\x7d` or `&gt;`?"
  | emptyAttribute => "JSX attributes must only be assigned a non-empty 'expression'."
  | missingSemicolon =>
    "Expected a semicolon or an implicit semicolon after a statement, but found none"
  | badTarget => "Cannot assign to this expression"
  | broken rule => rule.message
  | lexical fault => fault.message
  | tooDeep => "Nesting is too deep"

/-- A complaint and the offset that it is about. -/
structure Diagnostic where
  complaint : Complaint
  offset : Nat
  deriving DecidableEq, Repr, Inhabited

/-- The words of a diagnostic. -/
def Diagnostic.message (d : Diagnostic) : String := d.complaint.message

end MarkupCompiler.Syntax
