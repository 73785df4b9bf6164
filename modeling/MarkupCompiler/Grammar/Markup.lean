import MarkupCompiler.Grammar.Types

/-!
# Markup

Between tags any text stands for itself, so children are read character by character from where the
tag before them ends. For this reason the reader of markup stops on its last token and does not
pass it.
-/

namespace MarkupCompiler.Grammar

open Syntax

/-- A name in a tag: a word that may go on with hyphens. -/
def tagWord : Parser String := do
  let cursor ← get
  match cursor.token.kind with
  | .word name _ =>
    let tail := if cursor.after.head? == some '-' then
        cursor.after.takeWhile fun c => Text.isNamePart c || c == '-'
      else []
    set (cursor.moveTo (cursor.token.span.stop + Text.byteLength tail)
      (cursor.after.drop tail.length))
    return name ++ String.ofList tail
  | _ => unexpected

/-- The names after the dots of a tag. -/
def tagMembers : Parser (List String) :=
  many (at? .dot) do
    advance
    let start ← startOffset
    let name ← tagWord
    if name.toList.contains '-' then failAt .unexpected start
    return name

/-- The tag of an element. -/
def tagName : Parser TagName := do
  let name ← tagWord
  if ← eat? .colon then return .namespaced name (← tagWord)
  else if ← at? .dot then return .path name (← tagMembers)
  else if name == "this" then return .self
  else return .plain name

/-- The name of an attribute, with its namespace. -/
def attributeName : Parser String := do
  let name ← tagWord
  if ← eat? .colon then return name ++ ":" ++ (← tagWord) else return name

/-- Puts the cursor on the first token from an offset on, where a tag may open. -/
def moveToTag (offset : Nat) (text : List Char) : Parser Unit := do
  modify (·.moveTo offset text)
  if text.head? == some '<' then modify (·.narrow .lt)

/-- A quoted attribute value, whose text is taken as it is written. -/
def quotedValue (quote : Char) : Parser String := do
  let cursor ← get
  let start := cursor.token.span.start
  let text := cursor.here.drop 1
  let raw := text.takeWhile (· != quote)
  if raw.length == text.length then failAt (.lexical .unterminatedString) start
  set (cursor.moveTo (start + Text.byteLength raw + 2) (text.drop (raw.length + 1)))
  return String.ofList raw

namespace Rules

/-- The value of an attribute. -/
def attributeValue (r : Rules) : Parser AttributeValue := do
  let cursor ← get
  match cursor.here with
  | '"' :: _ => return .text (← quotedValue '"')
  | '\'' :: _ => return .text (← quotedValue '\'')
  | '{' :: _ =>
    advance
    if ← eat? .rbrace then
      note .emptyAttribute cursor.token.span.start
      return .empty
    else
      let value ← r.inner
      expect .rbrace
      return .expr value
  | '<' :: _ =>
    modify (·.narrow .lt)
    let m ← r.markup
    advance
    return .markup m
  | _ => unexpected

/-- An attribute. -/
def attributeLike (r : Rules) : Parser Attribute := do
  if ← eat? .lbrace then
    expect .ellipsis
    let value ← r.inner
    expect .rbrace
    return .spread value
  else
    let name ← attributeName
    if ← eat? .eq then return .named name (← r.attributeValue) else return .named name .bare

/-- What stands in braces between tags; the cursor is left on the closing brace. -/
def childInBraces (r : Rules) : Parser Child := do
  expect .lbrace
  if ← at? .rbrace then return .empty
  else
    let isSpread ← eat? .ellipsis
    let value ← r.inner
    expectHere .rbrace
    return if isSpread then .spread value else .expr value

/-- Notes the brackets in a text between tags that have to be written otherwise. -/
def noteLooseBrackets : Nat → List Char → Parser Unit
  | _, [] => return ()
  | offset, c :: rest => do
    if c == '>' then note .looseAngle offset
    if c == '}' then note .looseBrace offset
    noteLooseBrackets (offset + c.utf8Size) rest

/-- Children after the token at the cursor, up to a closing tag, at whose angle bracket the cursor
is left. -/
def childrenAfter (r : Rules) : Parser (List Child) :=
  loop [] fun children => do
    let cursor ← get
    let offset := cursor.token.span.stop
    let raw := cursor.after.takeWhile fun c => c != '<' && c != '{'
    let rest := cursor.after.drop raw.length
    noteLooseBrackets offset raw
    if rest.isEmpty then failAt .unexpected offset
    let children := if raw.isEmpty then children else .text (String.ofList raw) :: children
    moveToTag (offset + Text.byteLength raw) rest
    if ← at? .lbrace then return .inl ((← r.childInBraces) :: children)
    else if (← peek).kind == .punct .slash then return .inr children.reverse
    else return .inl (.markup (← r.markup) :: children)

/-- The rest of a fragment from the end of its opening tag on. -/
def fragmentRest (r : Rules) (start : Nat) : Parser Markup := do
  let children ← r.childrenAfter
  advance
  advance
  if !(← at? .gt) then
    note .closingFragment (← startOffset)
    let _ ← tagName
  expectHere .gt
  return .fragment ⟨start, (← token).span.stop⟩ children

/-- The closing tag of an element. -/
def closingTag (tag : TagName) : Parser Unit := do
  let start ← startOffset
  advance
  advance
  if ← at? .gt then note (.closingTag tag.text) start
  else
    let nameStart ← startOffset
    let closing ← tagName
    if closing != tag then note (.closingTag tag.text) nameStart
  expectHere .gt

/-- The rest of an element from its tag on. -/
def elementRest (r : Rules) (start : Nat) : Parser Markup := do
  let tag ← tagName
  if ← types? then r.typeArguments?
  let goesOn : Parser Bool := do
    match (← token).kind with
    | .punct .slash | .punct .gt | .punct .lt => return false
    | _ => return true
  let attributes ← many goesOn r.attributeLike
  if ← eat? .slash then
    expectHere .gt
    return .element (.mk ⟨start, (← token).span.stop⟩ tag attributes [])
  else
    expectHere .gt
    let children ← r.childrenAfter
    closingTag tag
    return .element (.mk ⟨start, (← token).span.stop⟩ tag attributes children)

/-- Markup from its first angle bracket on; the cursor is left on its last one. -/
def markupLike (r : Rules) : Parser Markup := do
  let start ← startOffset
  advance
  if ← at? .gt then r.fragmentRest start else r.elementRest start

end Rules

end MarkupCompiler.Grammar
