import MarkupCompiler.Grammar.Source

/-!
# Parsers as functions

A parser is a function of a scope and a cursor. These lemmas say what the parsers that all others
are made of are as functions, so that `simp` runs a parser on a cursor of which enough is known.
-/

namespace MarkupCompiler.Grammar

open Syntax

section

variable {α β : Type} (scope : Scope) (cursor : Cursor)

/-! ## Results -/

/-- `pure` reads nothing. -/
@[simp] theorem Parser.pure_apply (a : α) :
    (pure a : Parser α) scope cursor = .ok (a, cursor) := rfl

/-- Parsers run one after another. -/
@[simp] theorem Parser.bind_apply (p : Parser α) (f : α → Parser β) :
    (p >>= f) scope cursor =
      (p scope cursor).bind fun result => f result.1 scope result.2 := rfl

/-- A function is applied to the result. -/
@[simp] theorem Parser.map_apply (f : α → β) (p : Parser α) :
    (f <$> p) scope cursor =
      (p scope cursor).bind fun result => .ok (f result.1, result.2) := by
  rw [← bind_pure_comp]
  rfl

/-- One of two parsers runs. -/
@[simp] theorem Parser.ite_apply (condition : Prop) [Decidable condition] (p q : Parser α) :
    (if condition then p else q) scope cursor =
      if condition then p scope cursor else q scope cursor := by
  split <;> rfl

/-- A result is handed on. -/
@[simp] theorem ok_bind {ε : Type} (a : α) (f : α → Except ε β) :
    (Except.ok a).bind f = f a := rfl

/-- An error is kept. -/
@[simp] theorem error_bind {ε : Type} (e : ε) (f : α → Except ε β) :
    (Except.error e).bind f = .error e := rfl

/-! ## Scopes and cursors -/

/-- `read` gives the scope. -/
@[simp] theorem Parser.read_apply : (read : Parser Scope) scope cursor = .ok (scope, cursor) := rfl

/-- `get` gives the cursor. -/
@[simp] theorem Parser.get_apply : (get : Parser Cursor) scope cursor = .ok (cursor, cursor) := rfl

/-- `set` replaces the cursor. -/
@[simp] theorem Parser.set_apply (next : Cursor) :
    (set next : Parser PUnit) scope cursor = .ok ((), next) := rfl

/-- `modify` moves the cursor. -/
@[simp] theorem Parser.modify_apply (f : Cursor → Cursor) :
    (modify f : Parser PUnit) scope cursor = .ok ((), f cursor) := rfl

/-- `types?` asks the scope. -/
@[simp] theorem types?_apply : types? scope cursor = .ok (scope.types, cursor) := rfl

/-- A scope in brackets. -/
def Scope.inBrackets : Scope :=
  { scope with
    inOperator := true, inBranch := false, inDecorator := false, conditionalTypes := true }

/-- Between brackets a parser runs in the scope of brackets. -/
@[simp] theorem bracketed_apply (p : Parser α) :
    bracketed p scope cursor = p scope.inBrackets cursor := rfl

/-! ## Tokens -/

/-- `token` gives the token under the cursor. -/
@[simp] theorem token_apply : token scope cursor = .ok (cursor.token, cursor) := rfl

/-- `peek` gives the token after that. -/
@[simp] theorem peek_apply : peek scope cursor = .ok (cursor.next.token, cursor) := rfl

/-- `startOffset` gives the start of the token. -/
@[simp] theorem startOffset_apply :
    startOffset scope cursor = .ok (cursor.token.span.start, cursor) := rfl

/-- `spanFrom` ends a span at the last token. -/
@[simp] theorem spanFrom_apply (start : Nat) :
    spanFrom start scope cursor = .ok (⟨start, cursor.lastStop⟩, cursor) := rfl

/-- `advance` goes to the next token. -/
@[simp] theorem advance_apply : advance scope cursor = .ok ((), cursor.next) := rfl

/-- `at?` compares the token with a punctuator. -/
@[simp] theorem at?_apply (punct : Punct) :
    at? punct scope cursor = .ok (cursor.token.kind == .punct punct, cursor) := rfl

/-- `atKeyword?` compares the token with a keyword. -/
@[simp] theorem atKeyword?_apply (keyword : Keyword) :
    atKeyword? keyword scope cursor = .ok (isKeyword cursor.token keyword, cursor) := rfl

/-- `atOneOf?` compares the token with keywords. -/
@[simp] theorem atOneOf?_apply (keywords : List Keyword) :
    atOneOf? keywords scope cursor =
      .ok (keywords.any (isKeyword cursor.token), cursor) := rfl

/-- Whether a token is the name of a variable in a scope. -/
def Scope.allowsName (token : Token) : Bool :=
  match token.kind with
  | .word _ none => true
  | .word _ (some keyword) =>
    !keyword.isReserved && !(keyword == .awaitKw && scope.awaits)
      && !(keyword == .yieldKw && scope.yields)
  | _ => false

/-- The scope decides which tokens are names. -/
@[simp] theorem isIdentifier_apply (token : Token) :
    isIdentifier token scope cursor = .ok (scope.allowsName token, cursor) := by
  obtain ⟨kind, span, onNewLine⟩ := token
  cases kind with
  | word name keyword => cases keyword <;> rfl
  | _ => rfl

/-! ## Failures -/

/-- A parser that stops, stops. -/
theorem failHere_apply (complaint : Complaint) :
    ∃ complaints, (failHere complaint : Parser α) scope cursor = .error complaints := by
  obtain ⟨⟨kind, span, onNewLine⟩, here, after, lastStop, defaults, exports, noted⟩ := cursor
  cases kind <;> exact ⟨_, rfl⟩

end

end MarkupCompiler.Grammar
