import MarkupCompiler.Text.Bytes
import MarkupCompiler.Number.Binary64

/-!
# Tokens

The words, punctuators and literals that a module is made of. Words that mean something to the
grammar are recognised once, when the token is read; most of them are names like any other
wherever the grammar does not ask for them.
-/

namespace MarkupCompiler.Syntax

/-- The punctuators. -/
inductive Punct where
  | lbrace | rbrace | lparen | rparen | lbracket | rbracket
  | semicolon | comma | dot | ellipsis | questionDot | question | colon | arrow | atSign
  | lt | gt | le | ge | eqEq | notEq | eqEqEq | notEqEq
  | plus | minus | star | slash | percent | starStar | plusPlus | minusMinus
  | shl | shr | ushr | amp | bar | caret | bang | tilde | ampAmp | barBar | questionQuestion
  | eq | plusEq | minusEq | starEq | slashEq | percentEq | starStarEq | shlEq | shrEq | ushrEq
  | ampEq | barEq | caretEq | ampAmpEq | barBarEq | questionQuestionEq
  | backquote
  deriving DecidableEq, Repr, Inhabited

/-- How a punctuator is written. -/
def Punct.text : Punct → String
  | lbrace => "\x7b" | rbrace => "\x7d" | lparen => "(" | rparen => ")"
  | lbracket => "[" | rbracket => "]"
  | semicolon => ";" | comma => "," | dot => "." | ellipsis => "..." | questionDot => "?."
  | question => "?" | colon => ":" | arrow => "=>" | atSign => "@"
  | lt => "<" | gt => ">" | le => "<=" | ge => ">=" | eqEq => "==" | notEq => "!="
  | eqEqEq => "===" | notEqEq => "!=="
  | plus => "+" | minus => "-" | star => "*" | slash => "/" | percent => "%" | starStar => "**"
  | plusPlus => "++" | minusMinus => "--"
  | shl => "<<" | shr => ">>" | ushr => ">>>" | amp => "&" | bar => "|" | caret => "^"
  | bang => "!" | tilde => "~" | ampAmp => "&&" | barBar => "||" | questionQuestion => "??"
  | eq => "=" | plusEq => "+=" | minusEq => "-=" | starEq => "*=" | slashEq => "/="
  | percentEq => "%=" | starStarEq => "**=" | shlEq => "<<=" | shrEq => ">>=" | ushrEq => ">>>="
  | ampEq => "&=" | barEq => "|=" | caretEq => "^=" | ampAmpEq => "&&=" | barBarEq => "||="
  | questionQuestionEq => "??="
  | backquote => "`"

/-- The punctuators that are read as they stand, longer ones before their beginnings. Those that
begin with `>` are read one `>` at a time, since a `>` may also close a tag or a list of type
arguments. -/
def Punct.direct : List Punct :=
  [starStarEq, shlEq, ampAmpEq, barBarEq, questionQuestionEq, eqEqEq, notEqEq, ellipsis,
    plusPlus, minusMinus, starStar, shl, ampAmp, barBar, questionQuestion, questionDot, arrow,
    plusEq, minusEq, starEq, slashEq, percentEq, ampEq, barEq, caretEq, le, eqEq, notEq,
    lbrace, rbrace, lparen, rparen, lbracket, rbracket, semicolon, comma, dot, question, colon,
    atSign, lt, gt, plus, minus, star, slash, percent, amp, bar, caret, bang, tilde, eq, backquote]

/-- The operators that begin with `>`, longer ones before their beginnings. -/
def Punct.greater : List Punct := [ushrEq, shrEq, ushr, ge, shr, gt]

/-- The words that the grammar asks for. -/
inductive Keyword where
  | breakKw | caseKw | catchKw | classKw | constKw | continueKw | debuggerKw | defaultKw | deleteKw
  | doKw | elseKw | enumKw | exportKw | extendsKw | falseKw | finallyKw | forKw | functionKw | ifKw
  | importKw | inKw | instanceofKw | newKw | nullKw | returnKw | superKw | switchKw | thisKw
  | throwKw | trueKw | tryKw | typeofKw | varKw | voidKw | whileKw | withKw
  | abstractKw | accessorKw | asKw | assertKw | assertsKw | asyncKw | awaitKw | declareKw | deferKw
  | fromKw | getKw | globalKw | implementsKw | inferKw | interfaceKw | isKw | keyofKw | letKw
  | metaKw | moduleKw | namespaceKw | ofKw | outKw | overrideKw | privateKw | protectedKw
  | publicKw | readonlyKw | requireKw | satisfiesKw | setKw | sourceKw | staticKw | targetKw
  | typeKw | uniqueKw | usingKw | yieldKw
  deriving DecidableEq, Repr, Inhabited

/-- The words that can never be the name of a variable. -/
def Keyword.reserved : List (String × Keyword) :=
  [("break", breakKw), ("case", caseKw), ("catch", catchKw), ("class", classKw),
    ("const", constKw), ("continue", continueKw), ("debugger", debuggerKw),
    ("default", defaultKw), ("delete", deleteKw), ("do", doKw), ("else", elseKw),
    ("enum", enumKw), ("export", exportKw), ("extends", extendsKw), ("false", falseKw),
    ("finally", finallyKw), ("for", forKw), ("function", functionKw), ("if", ifKw),
    ("import", importKw), ("in", inKw), ("instanceof", instanceofKw), ("new", newKw),
    ("null", nullKw), ("return", returnKw), ("super", superKw), ("switch", switchKw),
    ("this", thisKw), ("throw", throwKw), ("true", trueKw), ("try", tryKw),
    ("typeof", typeofKw), ("var", varKw), ("void", voidKw), ("while", whileKw), ("with", withKw)]

/-- The words that are keywords only in some places. -/
def Keyword.contextual : List (String × Keyword) :=
  [("abstract", abstractKw), ("accessor", accessorKw), ("as", asKw), ("assert", assertKw),
    ("asserts", assertsKw), ("async", asyncKw), ("await", awaitKw), ("declare", declareKw),
    ("defer", deferKw), ("from", fromKw), ("get", getKw), ("global", globalKw),
    ("implements", implementsKw), ("infer", inferKw), ("interface", interfaceKw), ("is", isKw),
    ("keyof", keyofKw), ("let", letKw), ("meta", metaKw), ("module", moduleKw),
    ("namespace", namespaceKw), ("of", ofKw), ("out", outKw), ("override", overrideKw),
    ("private", privateKw), ("protected", protectedKw), ("public", publicKw),
    ("readonly", readonlyKw), ("require", requireKw), ("satisfies", satisfiesKw),
    ("set", setKw), ("source", sourceKw), ("static", staticKw), ("target", targetKw),
    ("type", typeKw), ("unique", uniqueKw), ("using", usingKw), ("yield", yieldKw)]

/-- The keyword that a word is. -/
def Keyword.ofName? (name : List Char) : Option Keyword :=
  ((reserved ++ contextual).find? fun entry => entry.1.toList == name).map (·.2)

/-- Whether a keyword can never be the name of a variable. -/
def Keyword.isReserved (keyword : Keyword) : Bool := reserved.any fun entry => entry.2 == keyword

/-- Names that are shown as themselves in messages, though the grammar never asks for them. -/
def namedTypes : List String :=
  ["any", "bigint", "boolean", "constructor", "intrinsic", "never", "number", "object", "package",
    "string", "symbol", "undefined", "unknown"]

/-- What is wrong with a stretch of text that is no token. -/
inductive Fault where
  | unterminatedString
  | unterminatedComment
  | unterminatedPattern
  | badPatternFlag
  | badNumber
  | badEscape
  | badCharacter (c : Char)
  deriving DecidableEq, Repr, Inhabited

/-- What a token is. -/
inductive TokenKind where
  | word (name : String) (keyword : Option Keyword)
  | privateName (name : String)
  | punct (punct : Punct)
  | number (value : Binary64)
  | bigint
  | string (value : String)
  | fault (fault : Fault)
  | finish
  deriving DecidableEq, Repr, Inhabited

/-- A token, where it stands, and whether a line ends between it and the token before it. -/
structure Token where
  kind : TokenKind
  span : Span
  onNewLine : Bool
  deriving DecidableEq, Repr, Inhabited

/-- How a token is named where another was expected. -/
def TokenKind.shown : TokenKind → String
  | word name keyword =>
    if keyword.isSome || namedTypes.contains name then name else "Identifier"
  | privateName _ => "PrivateIdentifier"
  | punct p => p.text
  | number _ => "decimal"
  | bigint => "decimal"
  | string _ => "string"
  | fault _ => "Unknown"
  | finish => "EOF"

end MarkupCompiler.Syntax
