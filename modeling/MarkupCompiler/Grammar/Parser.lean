import MarkupCompiler.Syntax.Diagnostic
import MarkupCompiler.Syntax.Lexer
import MarkupCompiler.Syntax.Tree

/-!
# Parsers

A parser reads from a cursor, which stands on a token and holds the text from that token on, so
that the token can be read again in another way. Some complaints stop the parser; others are noted
and it goes on.
-/

namespace MarkupCompiler.Grammar

open Syntax

/-- What the place in the source allows. -/
structure Scope where
  /-- Whether types may be written. -/
  types : Bool
  /-- Whether markup may be written. -/
  markup : Bool
  /-- Whether `in` is an operator here. -/
  inOperator : Bool := true
  /-- Whether `await` is an operator here. -/
  awaits : Bool := true
  /-- Whether `yield` is an operator here. -/
  yields : Bool := false
  /-- Whether a `return` may stand here. -/
  returns : Bool := false
  /-- Whether this is the middle of a conditional expression, whose colon comes next. -/
  inBranch : Bool := false
  /-- Whether this is the expression of a decorator. -/
  inDecorator : Bool := false
  /-- Whether a type here may go on as a conditional type. -/
  conditionalTypes : Bool := true
  /-- Whether declarations here are of types alone. -/
  ambient : Bool := false

/-- A place in a text. -/
structure Cursor where
  token : Token
  /-- The text from the token on. -/
  here : List Char
  /-- The text after the token. -/
  after : List Char
  /-- Where the token before this one ends. -/
  lastStop : Nat
  /-- The offsets of the defaults in object literals that are not yet known to be patterns. -/
  defaults : List Nat
  /-- The names that are exported and where, the newest first. -/
  exports : List (String × Nat)
  /-- The complaints that were noted, the newest first. -/
  noted : List Diagnostic

/-- Reads the token after blanks and comments. -/
def readToken (offset : Nat) (text : List Char) : Token × List Char × List Char :=
  let blanks := skipBlanks .plain offset false text
  match blanks.openComment with
  | some start => (⟨.fault .unterminatedComment, ⟨start, blanks.offset⟩, blanks.newLine⟩, [], [])
  | none =>
    let (kind, width) := scanKind blanks.rest
    let stop := blanks.offset + Text.byteLength (blanks.rest.take width)
    (⟨kind, ⟨blanks.offset, stop⟩, blanks.newLine⟩, blanks.rest, blanks.rest.drop width)

/-- A cursor moved to the first token from an offset on. -/
def Cursor.moveTo (cursor : Cursor) (offset : Nat) (text : List Char) : Cursor :=
  let (token, here, after) := readToken offset text
  { cursor with token, here, after, lastStop := offset }

/-- A cursor moved past its token. -/
def Cursor.next (cursor : Cursor) : Cursor := cursor.moveTo cursor.token.span.stop cursor.after

/-- A cursor whose token is read anew as a punctuator. -/
def Cursor.narrow (cursor : Cursor) (punct : Punct) : Cursor :=
  let width := punct.text.length
  { cursor with
    token := { cursor.token with
      kind := .punct punct
      span := ⟨cursor.token.span.start, cursor.token.span.start + width⟩ }
    after := cursor.here.drop width }

/-- A parser: it fails with all complaints, or gives a result and moves the cursor. -/
abbrev Parser := ReaderT Scope (StateT Cursor (Except (List Diagnostic)))

/-! ## Tokens -/

/-- The token at the cursor. -/
def token : Parser Token := return (← get).token

/-- Where the token at the cursor starts. -/
def startOffset : Parser Nat := return (← token).span.start

/-- The span from an offset to the end of the last token that was passed. -/
def spanFrom (start : Nat) : Parser Span := return ⟨start, (← get).lastStop⟩

/-- Passes the token at the cursor. -/
def advance : Parser Unit := modify Cursor.next

/-- Notes a complaint and goes on. -/
def note (complaint : Complaint) (offset : Nat) : Parser Unit :=
  modify fun cursor => { cursor with noted := ⟨complaint, offset⟩ :: cursor.noted }

/-- Notes that a rule is broken. -/
def breaks (rule : Rule) (offset : Nat) : Parser Unit := note (.broken rule) offset

/-- Notes that a rule is broken here, if it is. -/
def breaksIf (isBroken : Bool) (rule : Rule) : Parser Unit := do
  if isBroken then breaks rule (← startOffset)

/-- Stops with a complaint. -/
def failAt {α : Type} (complaint : Complaint) (offset : Nat) : Parser α := do
  throw ((← get).noted.reverse ++ [⟨complaint, offset⟩])

/-- Stops with a complaint about the token at the cursor. What is wrong with the token itself comes
before what is wrong with its place. -/
def failHere {α : Type} (complaint : Complaint) : Parser α := do
  let token ← token
  match token.kind with
  | .fault fault => failAt (.lexical fault) token.span.start
  | _ => failAt complaint token.span.start

/-- Stops at a token that cannot stand where it does. -/
def unexpected {α : Type} : Parser α := failHere .unexpected

/-- Whether the cursor stands on a punctuator. -/
def at? (punct : Punct) : Parser Bool := return (← token).kind == .punct punct

/-- Whether a token is a keyword. -/
def isKeyword (token : Token) (keyword : Keyword) : Bool :=
  match token.kind with
  | .word _ (some k) => k == keyword
  | _ => false

/-- Whether the cursor stands on a keyword. -/
def atKeyword? (keyword : Keyword) : Parser Bool := return isKeyword (← token) keyword

/-- Whether the cursor stands on one of several keywords. -/
def atOneOf? (keywords : List Keyword) : Parser Bool :=
  return keywords.any (isKeyword (← token))

/-- Passes a punctuator if the cursor stands on it. -/
def eat? (punct : Punct) : Parser Bool := do
  if ← at? punct then
    advance
    return true
  else return false

/-- Passes a keyword if the cursor stands on it. -/
def eatKeyword? (keyword : Keyword) : Parser Bool := do
  if ← atKeyword? keyword then
    advance
    return true
  else return false

/-- Passes a punctuator that has to stand here. -/
def expect (punct : Punct) : Parser Unit := do
  if ← at? punct then advance
  else failHere (.expected punct.text (← token).kind.shown)

/-- Checks for a punctuator that has to stand here, and does not pass it. -/
def expectHere (punct : Punct) : Parser Unit := do
  if ← at? punct then return ()
  else failHere (.expected punct.text (← token).kind.shown)

/-- Passes a keyword that has to stand here. -/
def expectKeyword (keyword : Keyword) : Parser Unit := do
  if ← atKeyword? keyword then advance else unexpected

/-- Reads the operators that begin with `>` as a whole. -/
def widenGreater : Parser Unit := do
  if ← at? .gt then
    match scanPunct? Punct.greater (← get).here with
    | some punct => modify (·.narrow punct)
    | none => return ()

/-- Reads only the first angle bracket of `<<`. -/
def narrowLess : Parser Unit := do
  if ← at? .shl then modify (·.narrow .lt)

/-- Takes the defaults in an object literal for those of a pattern. -/
def settleDefaults (span : Span) : Parser Unit :=
  modify fun cursor => { cursor with
    defaults := cursor.defaults.filter fun offset => offset < span.start || span.stop ≤ offset }

/-! ## Looking ahead -/

/-- Runs a parser and leaves the cursor where it was. -/
def lookAhead {α : Type} (p : Parser α) : Parser α := do
  let cursor ← get
  let result ← p
  set cursor
  return result

/-- Runs a parser; if it fails, the cursor stays where it was. -/
def attempt {α : Type} (p : Parser α) : Parser (Option α) := fun scope cursor =>
  match p scope cursor with
  | .ok (result, next) => .ok (some result, next)
  | .error _ => .ok (none, cursor)

/-- The token after the one at the cursor. -/
def peek : Parser Token := return (← get).next.token

/-! ## Repetition -/

/-- Repeats a step until it is done, for a bounded number of times. -/
def iterate {α β : Type} (step : α → Parser (α ⊕ β)) : Nat → α → Parser β
  | 0, _ => failHere .tooDeep
  | rounds + 1, state => do
    match ← step state with
    | .inl state => iterate step rounds state
    | .inr result => return result

/-- Repeats a step until it is done. Each round passes a token, so the text left bounds them. -/
def loop {α β : Type} (start : α) (step : α → Parser (α ⊕ β)) : Parser β := do
  iterate step ((← get).here.length + 2) start

/-- Repeats a parser as long as a test holds. -/
def many {α : Type} (goesOn : Parser Bool) (item : Parser α) : Parser (List α) :=
  loop [] fun items => do
    if ← goesOn then return .inl ((← item) :: items) else return .inr items.reverse

/-- Items with commas between them, and perhaps after the last, up to a closing punctuator, which is
not passed. -/
def listUntil {α : Type} (closing : Punct) (item : Parser α) : Parser (List α) :=
  loop [] fun items => do
    let token ← token
    if token.kind == .punct closing || token.kind == .finish then return .inr items.reverse
    else
      let items := (← item) :: items
      let next ← Grammar.token
      if next.kind == .punct closing || next.kind == .finish then return .inr items.reverse
      else if next.kind == .punct .comma then
        advance
        return .inl items
      else failHere (.expectedEither "," closing.text next.kind.shown)

/-! ## Scopes -/

/-- Runs a parser where brackets open a place of its own. -/
def bracketed {α : Type} (p : Parser α) : Parser α :=
  withReader
    (fun scope => { scope with
      inOperator := true, inBranch := false, inDecorator := false, conditionalTypes := true }) p

/-- Runs a parser for the parameters or body of a function. -/
def inFunction {α : Type} (isAsync isGenerator : Bool) (p : Parser α) : Parser α :=
  withReader
    (fun scope => { scope with
      inOperator := true, inBranch := false, inDecorator := false, conditionalTypes := true
      awaits := isAsync, yields := isGenerator, returns := true }) p

/-- Runs a parser for the parameters of an arrow function, in which `await` is what it is around
it. -/
def inArrowHead {α : Type} (isAsync : Bool) (p : Parser α) : Parser α :=
  withReader
    (fun scope => { scope with awaits := scope.awaits || isAsync, yields := false }) p

/-- Runs a parser for the body of an arrow function. -/
def inArrowBody {α : Type} (isAsync : Bool) (p : Parser α) : Parser α :=
  withReader (fun scope => { scope with awaits := isAsync, yields := false }) p

/-- Runs a parser where a `return` may stand. -/
def inBody {α : Type} (p : Parser α) : Parser α :=
  bracketed (withReader (fun scope => { scope with returns := true }) p)

/-- Whether types may be written here. -/
def types? : Parser Bool := return (← read).types

/-- Whether a token is the name of a variable here. -/
def isIdentifier (token : Token) : Parser Bool := do
  match token.kind with
  | .word _ none => return true
  | .word _ (some keyword) =>
    let scope ← read
    return !keyword.isReserved && !(keyword == .awaitKw && scope.awaits)
      && !(keyword == .yieldKw && scope.yields)
  | _ => return false

/-- Whether the cursor stands on the name of a variable. -/
def atIdentifier? : Parser Bool := do isIdentifier (← token)

/-- Passes the name of a variable. -/
def identifier : Parser Expr := do
  let token ← token
  match token.kind with
  | .word name _ =>
    if ← isIdentifier token then
      advance
      return .ident token.span name
    else unexpected
  | _ => unexpected

/-- Passes any word. -/
def anyWord : Parser String := do
  match (← token).kind with
  | .word name _ =>
    advance
    return name
  | _ => unexpected

/-- Ends a statement: with a semicolon, or where one is implied. -/
def semicolon : Parser Unit := do
  let cursor ← get
  match cursor.token.kind with
  | .punct .semicolon => advance
  | .punct .rbrace => return ()
  | .finish => return ()
  | .fault _ => unexpected
  | _ =>
    if cursor.token.onNewLine then return ()
    else failAt .missingSemicolon cursor.lastStop

end MarkupCompiler.Grammar
