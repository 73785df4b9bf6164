import MarkupCompiler.Proofs.Agreement
import MarkupCompiler.Proofs.Scanning
import MarkupCompiler.Proofs.Totality

/-!
# Expressions without their places

A term is an expression without its places in the source (`Expr.term?`): an operand that is one
token, or operands joined by operators, members, calls and brackets. Functions, classes, objects,
templates and patterns are no terms. What is written for a term is its text, whatever blanks and
comments stood in the source (`emitExpr_of_term?`).
-/

namespace MarkupCompiler.Syntax

open Text

/-! ## Terms -/

/-- Whether a token is a string literal. -/
def TokenKind.isString : TokenKind → Bool
  | .string _ => true
  | _ => false

/-- Whether an operand begins with a token. -/
def TokenKind.startsOperand : TokenKind → Bool
  | .number _ | .bigint | .string _ | .word _ none | .punct .lparen | .punct .lbracket => true
  | .word _ (some keyword) => [Keyword.nullKw, .trueKw, .falseKw, .thisKw].contains keyword
  | _ => false

/-- Whether a text is one token that is an operand by itself. -/
def isOperand (text : List Char) (kind : TokenKind) : Bool :=
  scanKind text == (kind, text.length) && kind.startsOperand &&
    (kind.isNumeric || (kind.isString && ['"', '\''].any (text.head? == some ·)) || isName text)

/-- An operand that is one token. -/
structure Leaf where
  text : List Char
  kind : TokenKind
  isOperand : Syntax.isOperand text kind = true

/-- The operand that a text is as a token. -/
def Leaf.of? (text : List Char) (kind : TokenKind) : Option Leaf :=
  if h : Syntax.isOperand text kind = true then some ⟨text, kind, h⟩ else none

/-- The name of a member. -/
abbrev PlainName := { name : String // isName name.toList = true }

mutual

/-- An expression without its places. -/
inductive Term where
  | leaf (token : Leaf)
  | array (items : Terms)
  | paren (inner : Term)
  | member (object : Term) (name : PlainName) (isOptional : Bool)
  | index (object key : Term) (isOptional : Bool)
  | call (callee : Term) (arguments : Terms) (isOptional : Bool)
  | chain (inner : Term)
  | unary (op : UnaryOp) (operand : Term)
  | binary (op : BinaryOp) (left right : Term)
  | conditional (test consequent alternate : Term)

/-- Elements of an array, or arguments. -/
inductive Terms where
  | nil
  | hole (rest : Terms)
  | value (first : Term) (rest : Terms)
  | spread (first : Term) (rest : Terms)

end

/-- What stands between an element and the others. -/
def Terms.comma : Terms → List Char
  | .nil => []
  | _ => [',', ' ']

/-- What stands after the last element of an array, which keeps a hole there. -/
def Terms.lastComma : Terms → List Char
  | .nil => []
  | .hole .nil => [',']
  | .hole rest | .value _ rest | .spread _ rest => rest.lastComma

/-- What stands between an operator and its operand. -/
def UnaryOp.gap (op : UnaryOp) (operand : List Char) : List Char :=
  if op.isWord || (op == .minus && operand.head? == some '-')
    || (op == .plus && operand.head? == some '+') then [' ']
  else []

mutual

/-- How a term is written. -/
def Term.text : Term → List Char
  | .leaf token => token.text
  | .array items => '[' :: (items.text ++ items.lastComma ++ [']'])
  | .paren inner => '(' :: (inner.text ++ [')'])
  | .member object name isOptional =>
    object.text ++ (if isOptional then ['?', '.'] else ['.']) ++ name.1.toList
  | .index object key isOptional =>
    object.text ++ (if isOptional then ['?', '.'] else []) ++ '[' :: (key.text ++ [']'])
  | .call callee arguments isOptional =>
    callee.text ++ (if isOptional then ['?', '.'] else []) ++ '(' :: (arguments.text ++ [')'])
  | .chain inner => inner.text
  | .unary op operand => op.text.toList ++ op.gap operand.text ++ operand.text
  | .binary op left right => left.text ++ ' ' :: (op.text.toList ++ ' ' :: right.text)
  | .conditional test consequent alternate =>
    test.text ++ [' ', '?', ' '] ++ consequent.text ++ [' ', ':', ' '] ++ alternate.text

/-- How elements are written, with commas between them. -/
def Terms.text : Terms → List Char
  | .nil => []
  | .hole rest => rest.comma ++ rest.text
  | .value first rest => first.text ++ rest.comma ++ rest.text
  | .spread first rest => ['.', '.', '.'] ++ first.text ++ rest.comma ++ rest.text

end

/-! ## Well-built terms -/

/-- Whether a term is an operand with members and calls of which one is optional. -/
def Term.isOpen : Term → Bool
  | .member object _ isOptional | .index object _ isOptional | .call object _ isOptional =>
    isOptional || object.isOpen
  | _ => false

/-- How tightly a term holds together, on the scale of the operators between two operands, which
ends at 12. -/
def Term.level : Term → Nat
  | .binary op _ _ => op.level
  | .unary _ _ => 13
  | .conditional _ _ _ => 0
  | t => if t.isOpen then 0 else 15

/-- Whether a term is an operand, perhaps with members and calls. -/
def Term.isSpine : Term → Bool
  | .leaf _ | .array _ | .paren _ | .member _ _ _ | .index _ _ _ | .call _ _ _ => true
  | _ => false

/-- Whether a term can stand between commas. -/
def Term.isItem : Term → Bool
  | .conditional _ _ _ => true
  | t => 0 < t.level

/-- Whether an operator takes a left operand of a level. -/
def BinaryOp.takesLeft (op : BinaryOp) (level : Nat) : Bool :=
  if op == .pow then 14 ≤ level else op.level ≤ level

/-- Whether an operator takes a right operand of a level. -/
def BinaryOp.takesRight (op : BinaryOp) (level : Nat) : Bool :=
  if op == .pow then op.level ≤ level else op.level < level

/-- Whether a dot after a term is a decimal point. -/
def Term.takesDot : Term → Bool
  | .leaf token => Syntax.takesDot token.text
  | _ => false

/-- Whether a term is a string literal. -/
def Term.isString : Term → Bool
  | .leaf token => token.kind.isString
  | _ => false

/-- Whether a term is `||` or `&&` of two operands. -/
def Term.isLogical : Term → Bool
  | .binary op _ _ => op.isLogical
  | _ => false

mutual

/-- Whether a term is put together as the grammar asks for, and nothing in the way that it is
written is read in another way: no dot is a decimal point, `??` is not mixed with `||` or `&&`, and
if `types`, no angle bracket may open type arguments. -/
def Term.isSound (types : Bool) : Term → Bool
  | .leaf _ => true
  | .array items => items.areSound types true
  | .paren inner => inner.isItem && inner.isSound types
  | .member object _ isOptional =>
    object.isSpine && object.isSound types && (isOptional || !object.takesDot)
  | .index object key _ =>
    object.isSpine && object.isSound types && key.isItem && key.isSound types
  | .call callee arguments _ =>
    callee.isSpine && callee.isSound types && arguments.areSound types false
  | .chain inner => inner.isOpen && inner.isSound types
  | .unary _ operand => 13 ≤ operand.level && operand.isSound types
  | .binary op left right =>
    op.takesLeft left.level && left.isSound types && op.takesRight right.level &&
      right.isSound types && !(op == .coalesce && (left.isLogical || right.isLogical)) &&
      !(types && (op == .lt || op == .shl))
  | .conditional test consequent alternate =>
    0 < test.level && test.isSound types && consequent.isItem && consequent.isSound types &&
      alternate.isItem && alternate.isSound types

/-- Whether terms are elements of an array, which may leave some out, or arguments. -/
def Terms.areSound (types holes : Bool) : Terms → Bool
  | .nil => true
  | .hole rest => holes && rest.areSound types holes
  | .value first rest | .spread first rest =>
    first.isItem && first.isSound types && rest.areSound types holes

end

mutual

/-- Whether a parenthesis in a term is tried as the parameters of a function. It is at the front of
an item, which the term itself may be. -/
def Term.triesArrow (asItem : Bool) : Term → Bool
  | .leaf _ => false
  | .array items => items.tryArrow
  | .paren inner => asItem || inner.triesArrow true
  | .member object _ _ | .chain object => object.triesArrow asItem
  | .index object key _ => object.triesArrow asItem || key.triesArrow true
  | .call callee arguments _ => callee.triesArrow asItem || arguments.tryArrow
  | .unary _ operand => operand.triesArrow false
  | .binary _ left right => left.triesArrow asItem || right.triesArrow false
  | .conditional test consequent alternate =>
    test.triesArrow asItem || consequent.triesArrow true || alternate.triesArrow true

/-- Whether a parenthesis in one of several items is tried as the parameters of a function. -/
def Terms.tryArrow : Terms → Bool
  | .nil => false
  | .hole rest => rest.tryArrow
  | .value first rest | .spread first rest => first.triesArrow true || rest.tryArrow

end

/-- What is tried inside a term is tried in the term as an item. -/
theorem Term.triesArrow_of_false : ∀ t : Term, t.triesArrow false = true → t.triesArrow true = true
  | .leaf _, h | .array _, h | .unary _ _, h => h
  | .paren _, _ => rfl
  | .member object _ _, h | .chain object, h => triesArrow_of_false object h
  | .index object _ _, h | .call object _ _, h | .binary _ object _, h => by
    simp only [triesArrow, Bool.or_eq_true] at h ⊢
    exact h.imp_left (triesArrow_of_false object)
  | .conditional test _ _, h => by
    simp only [triesArrow, Bool.or_eq_true, or_assoc] at h ⊢
    exact h.imp_left (triesArrow_of_false test)

/-- The tightest operator is the power. -/
theorem BinaryOp.level_eq_iff {op : BinaryOp} : op.level = 12 ↔ op = .pow := by
  cases op <;> simp [BinaryOp.level]

/-- An operator takes a left operand that holds together at least as tightly. -/
theorem BinaryOp.level_of_takesLeft {op : BinaryOp} {level : Nat} (h : op.takesLeft level = true) :
    op.level ≤ level ∧ (op = .pow → 14 ≤ level) := by
  unfold BinaryOp.takesLeft at h
  split at h <;> rename_i hpow <;> rw [beq_iff_eq] at hpow
  · subst hpow
    have hle := of_decide_eq_true h
    exact ⟨Nat.le_trans (by decide) hle, fun _ => hle⟩
  · exact ⟨of_decide_eq_true h, fun hop => absurd hop hpow⟩

/-- An operator takes a right operand that holds together more tightly, and a power also another
power. -/
theorem BinaryOp.level_of_takesRight {op : BinaryOp} {level : Nat}
    (h : op.takesRight level = true) : op.level < level ∨ op = .pow ∧ level = 12 := by
  unfold BinaryOp.takesRight at h
  split at h <;> rename_i hpow <;> rw [beq_iff_eq] at hpow
  · subst hpow
    rcases Nat.lt_or_eq_of_le (of_decide_eq_true h) with hlt | heq
    · exact .inl hlt
    · exact .inr ⟨rfl, heq.symm⟩
  · exact .inl (of_decide_eq_true h)

/-- A comma and a blank stand before elements, if there are any. -/
theorem Terms.comma_eq (ts : Terms) : ts = .nil ∨ ts.comma = [',', ' '] := by
  cases ts with
  | nil => exact .inl rfl
  | _ => exact .inr rfl

/-- Arguments do not end in a hole. -/
theorem Terms.lastComma_of_areSound {types : Bool} : ∀ ts : Terms,
    ts.areSound types false = true → ts.lastComma = []
  | .nil, _ => rfl
  | .value _ ts, h | .spread _ ts, h => by
    rw [Terms.areSound, Bool.and_eq_true] at h
    exact lastComma_of_areSound ts h.2
  | .hole _, h => nomatch h

/-! ## Terms of expressions -/

/-- The operand that a literal is. -/
def Literal.leaf? (source : List Char) (span : Span) : Literal → Option Leaf
  | .null => Leaf.of? "null".toList (.word "null" (some .nullKw))
  | .boolean true => Leaf.of? "true".toList (.word "true" (some .trueKw))
  | .boolean false => Leaf.of? "false".toList (.word "false" (some .falseKw))
  | .number value => (slice? source span).bind (Leaf.of? · (.number value))
  | .bigint => (slice? source span).bind (Leaf.of? · .bigint)
  | .string value => (slice? source span).bind (Leaf.of? · (.string value))
  | .regexp => none

/-- The name that a member has. -/
def MemberName.plain? : MemberName → Option PlainName
  | .plain name => if h : isName name.toList = true then some ⟨name, h⟩ else none
  | .hidden _ => none

mutual

/-- The term that an expression is. -/
def Expr.term? (source : List Char) : Expr → Option Term
  | .literal span value => (value.leaf? source span).map .leaf
  | .ident _ name => (Leaf.of? name.toList (.word name none)).map .leaf
  | .thisRef _ => (Leaf.of? "this".toList (.word "this" (some .thisKw))).map .leaf
  | .array _ items => (itemsTerms? source items).map .array
  | .paren _ inner => (inner.term? source).map .paren
  | .member _ object name isOptional => do
    return .member (← object.term? source) (← name.plain?) isOptional
  | .index _ object key isOptional => do
    return .index (← object.term? source) (← key.term? source) isOptional
  | .call _ callee none arguments isOptional => do
    return .call (← callee.term? source) (← itemsTerms? source arguments) isOptional
  | .chain _ inner => (inner.term? source).map .chain
  | .unary _ op operand => (operand.term? source).map (.unary op)
  | .binary _ op left right => do
    return .binary op (← left.term? source) (← right.term? source)
  | .conditional _ test consequent alternate => do
    return .conditional (← test.term? source) (← consequent.term? source)
      (← alternate.term? source)
  | _ => none

/-- The terms that elements or arguments are. -/
def itemsTerms? (source : List Char) : List Item → Option Terms
  | [] => some .nil
  | .hole :: items => (itemsTerms? source items).map .hole
  | .value e :: items => do return .value (← e.term? source) (← itemsTerms? source items)
  | .spread e :: items => do return .spread (← e.term? source) (← itemsTerms? source items)

end

end MarkupCompiler.Syntax

/-! ## What is written -/

namespace MarkupCompiler

open Syntax Text

/-- The operand that a text is has that text. -/
theorem Syntax.Leaf.eq_of_of? {text : List Char} {kind : TokenKind} {leaf : Leaf}
    (h : Leaf.of? text kind = some leaf) : leaf.text = text ∧ leaf.kind = kind := by
  unfold Leaf.of? at h
  split at h
  · cases h
    exact ⟨rfl, rfl⟩
  · cases h

/-- An operand is the operand that its text is. -/
theorem Syntax.Leaf.of?_eq (token : Leaf) : Leaf.of? token.text token.kind = some token :=
  dif_pos token.isOperand

/-- An operand is a number, a string or a word. -/
theorem Syntax.Leaf.kind_cases (token : Leaf) :
    scanKind token.text = (token.kind, token.text.length) ∧ token.kind.startsOperand = true ∧
      (token.kind.isNumeric = true ∨
        (∃ c ∈ ['"', '\''], ∃ more, token.text = c :: more) ∧ token.kind.isString = true ∨
        isName token.text = true ∧
          token.kind = .word (String.ofList token.text) (Keyword.ofName? token.text)) := by
  obtain ⟨text, kind, hoperand⟩ := token
  simp only [Syntax.isOperand, Bool.and_eq_true, beq_iff_eq, Bool.or_eq_true, List.any_eq_true]
    at hoperand
  obtain ⟨⟨hscan, hstarts⟩, (hnumeric | ⟨hstring, c, hc, hhead⟩) | hname⟩ := hoperand
  · exact ⟨hscan, hstarts, .inl hnumeric⟩
  · obtain ⟨more, htext⟩ := List.head?_eq_some_iff.1 hhead
    exact ⟨hscan, hstarts, .inr (.inl ⟨⟨c, hc, more, htext⟩, hstring⟩)⟩
  · have hword := scanKind_name hname endsName_nil
    rw [List.append_nil, hscan] at hword
    exact ⟨hscan, hstarts, .inr (.inr ⟨hname, (Prod.mk.inj hword).1⟩)⟩

/-- A word that is an operand is the name that it is written as. -/
theorem Syntax.Leaf.eq_of_word {token : Leaf} {name : String} {keyword : Option Keyword}
    (h : token.kind = .word name keyword) :
    token.text = name.toList ∧ keyword = Keyword.ofName? name.toList := by
  obtain ⟨-, -, hnumeric | ⟨-, hstring⟩ | ⟨-, hword⟩⟩ := token.kind_cases
  · rw [h] at hnumeric
    cases hnumeric
  · rw [h] at hstring
    cases hstring
  · cases h.symm.trans hword
    rw [String.toList_ofList]
    exact ⟨rfl, rfl⟩

/-- A keyword stands in the tables under its name. -/
theorem Syntax.Keyword.exists_of_ofName? {name : List Char} {keyword : Keyword}
    (h : Keyword.ofName? name = some keyword) :
    ∃ entry ∈ reserved ++ contextual, entry.1.toList = name ∧ entry.2 = keyword := by
  obtain ⟨entry, hentry, hkeyword⟩ := Option.map_eq_some_iff.1 h
  exact ⟨entry, List.mem_of_find?_eq_some hentry, by simpa using List.find?_some hentry, hkeyword⟩

/-- An operand has a character at least. -/
theorem Syntax.Leaf.text_ne_nil (leaf : Leaf) : leaf.text ≠ [] := by
  intro hnil
  obtain ⟨hscan, hstarts, -⟩ := leaf.kind_cases
  rw [hnil] at hscan
  rw [← (Prod.mk.inj hscan).1] at hstarts
  cases hstarts

variable {env : Env} {table : TemplateTable}

/-- A token with a character in it is written as it is in the source. -/
theorem runFrom_tokenText {span : Span} {text : List Char} (hne : text ≠ [])
    (hslice : slice? env.source span = some text) :
    (tokenText span).runFrom env table = (.ok (String.ofList text), table) := by
  have hspan : ¬ (span.start == span.stop) = true := by
    obtain ⟨before, after, -, hbefore, hstop⟩ := slice?_eq_some.1 hslice
    rw [beq_iff_eq]
    intro hempty
    apply hne
    apply eq_nil_of_byteLength_eq_zero
    omega
  unfold tokenText
  rw [if_neg hspan]
  exact Emit.runFrom_sourceText hslice env.options table

/-- A literal that is an operand is written as its text. -/
theorem runFrom_literal {span : Span} {value : Literal} {leaf : Leaf}
    (h : value.leaf? env.source span = some leaf) :
    (Emitters.literal span value).runFrom env table = (.ok (String.ofList leaf.text), table) := by
  have hslice {kind : TokenKind}
      (h : (slice? env.source span).bind (Leaf.of? · kind) = some leaf) :
      (tokenText span).runFrom env table = (.ok (String.ofList leaf.text), table) := by
    obtain ⟨text, hslice, hleaf⟩ := Option.bind_eq_some_iff.1 h
    obtain ⟨rfl, -⟩ := Leaf.eq_of_of? hleaf
    exact runFrom_tokenText leaf.text_ne_nil hslice
  cases value with
  | null => rw [(Leaf.eq_of_of? h).1]; rfl
  | boolean value => cases value <;> rw [(Leaf.eq_of_of? h).1] <;> rfl
  | number value => exact hslice h
  | bigint => exact hslice h
  | string value => exact hslice h
  | regexp => cases h

/-- A name that a member has is written as the member is. -/
theorem Syntax.text_of_plain? {member : MemberName} {name : PlainName}
    (h : member.plain? = some name) : member.text = name.1 := by
  cases member with
  | plain text =>
    rw [MemberName.plain?] at h
    split at h
    · cases h
      rfl
    · cases h
  | hidden text => cases h

/-- The pieces that are written for elements, put together, are the text of the elements. -/
def Syntax.Terms.pieces : Terms → List String
  | .nil => []
  | .hole rest => "" :: rest.pieces
  | .value first rest => String.ofList first.text :: rest.pieces
  | .spread first rest => ("..." ++ String.ofList first.text) :: rest.pieces

/-- The first piece is joined to the others by what stands between elements. -/
theorem Syntax.Terms.joinWith_cons (piece : String) (rest : Terms) :
    joinWith ", " (piece :: rest.pieces) =
      piece ++ String.ofList rest.comma ++ joinWith ", " rest.pieces := by
  cases rest <;> simp [pieces, joinWith, comma]

/-- The pieces of elements are joined to their text. -/
theorem Syntax.Terms.joinWith_pieces : ∀ ts : Terms,
    joinWith ", " ts.pieces = String.ofList ts.text
  | .nil => rfl
  | .hole rest => by
    rw [pieces, joinWith_cons, joinWith_pieces rest, text, String.ofList_append,
      String.empty_append]
  | .value first rest => by
    rw [pieces, joinWith_cons, joinWith_pieces rest, text, String.ofList_append,
      String.ofList_append]
  | .spread first rest => by
    rw [pieces, joinWith_cons, joinWith_pieces rest, text]
    simp [← String.toList_inj]

/-- An array ends in a hole as its terms do. -/
theorem Syntax.lastComma_of_itemsTerms? {source : List Char} : ∀ (items : List Item) (ts : Terms),
    itemsTerms? source items = some ts →
      (if Emitters.endsInHole items then "," else "") = String.ofList ts.lastComma
  | [], _, h => by
    cases h
    rfl
  | item :: items, ts, h => by
    have ih := @lastComma_of_itemsTerms? source items
    cases item with
    | hole =>
      obtain ⟨ts, hts, rfl⟩ := Option.map_eq_some_iff.1 h
      cases items with
      | nil =>
        cases hts
        rfl
      | cons item items =>
        have hmore := ih ts hts
        cases ts with
        | nil => cases item <;> simp [itemsTerms?, Option.bind_eq_some_iff] at hts
        | _ => exact hmore
    | value e =>
      obtain ⟨t, ht, h⟩ := Option.bind_eq_some_iff.1 h
      obtain ⟨ts, hts, ⟨⟩⟩ := Option.bind_eq_some_iff.1 h
      exact ih ts hts
    | spread e =>
      obtain ⟨t, ht, h⟩ := Option.bind_eq_some_iff.1 h
      obtain ⟨ts, hts, ⟨⟩⟩ := Option.bind_eq_some_iff.1 h
      exact ih ts hts

mutual

/-- What is written for a term is its text. -/
theorem emitExpr_of_term? : ∀ (e : Expr) (t : Term), e.term? env.source = some t →
    (emitExpr .plain e).runFrom env table = (.ok (String.ofList t.text), table)
  | .literal span value, t, h => by
    obtain ⟨leaf, hleaf, rfl⟩ := Option.map_eq_some_iff.1 h
    rw [emitExpr_eq]
    exact runFrom_literal hleaf
  | .ident _ name, t, h => by
    obtain ⟨leaf, hleaf, rfl⟩ := Option.map_eq_some_iff.1 h
    rw [emitExpr_eq, Term.text, (Leaf.eq_of_of? hleaf).1, String.ofList_toList]
    rfl
  | .thisRef _, t, h => by
    obtain ⟨leaf, hleaf, rfl⟩ := Option.map_eq_some_iff.1 h
    rw [emitExpr_eq, Term.text, (Leaf.eq_of_of? hleaf).1]
    rfl
  | .array _ items, t, h => by
    obtain ⟨ts, hts, rfl⟩ := Option.map_eq_some_iff.1 h
    rw [emitExpr_eq]
    refine Emit.runFrom_bind_eq_ok.2 ⟨_, table, runFrom_items items ts hts, ?_⟩
    rw [ts.joinWith_pieces, lastComma_of_itemsTerms? items ts hts]
    simp [Term.text, ← String.toList_inj]
  | .paren _ inner, t, h => by
    obtain ⟨t, ht, rfl⟩ := Option.map_eq_some_iff.1 h
    rw [emitExpr_eq]
    refine Emit.runFrom_bind_eq_ok.2 ⟨_, table, emitExpr_of_term? inner t ht, ?_⟩
    simp [Term.text, ← String.toList_inj]
  | .member _ object name isOptional, t, h => by
    obtain ⟨t, ht, h⟩ := Option.bind_eq_some_iff.1 h
    obtain ⟨name', hname, ⟨⟩⟩ := Option.bind_eq_some_iff.1 h
    rw [emitExpr_eq]
    refine Emit.runFrom_bind_eq_ok.2 ⟨_, table, emitExpr_of_term? object t ht, ?_⟩
    have htext := text_of_plain? hname
    cases isOptional <;> simp [Term.text, ← String.toList_inj, htext]
  | .index _ object key isOptional, t, h => by
    obtain ⟨t, ht, h⟩ := Option.bind_eq_some_iff.1 h
    obtain ⟨k, hk, ⟨⟩⟩ := Option.bind_eq_some_iff.1 h
    rw [emitExpr_eq]
    refine Emit.runFrom_bind_eq_ok.2 ⟨_, table, emitExpr_of_term? object t ht, ?_⟩
    refine Emit.runFrom_bind_eq_ok.2 ⟨_, table, emitExpr_of_term? key k hk, ?_⟩
    cases isOptional <;> simp [Term.text, ← String.toList_inj]
  | .call _ callee none arguments isOptional, t, h => by
    obtain ⟨t, ht, h⟩ := Option.bind_eq_some_iff.1 h
    obtain ⟨ts, hts, ⟨⟩⟩ := Option.bind_eq_some_iff.1 h
    rw [emitExpr_eq]
    refine Emit.runFrom_bind_eq_ok.2 ⟨_, table, emitExpr_of_term? callee t ht, ?_⟩
    refine Emit.runFrom_bind_eq_ok.2 ⟨"", table, rfl, ?_⟩
    refine Emit.runFrom_bind_eq_ok.2 ⟨_, table, runFrom_items arguments ts hts, ?_⟩
    rw [ts.joinWith_pieces]
    cases isOptional <;> simp [Term.text, ← String.toList_inj]
  | .chain _ inner, t, h => by
    obtain ⟨t, ht, rfl⟩ := Option.map_eq_some_iff.1 h
    rw [emitExpr_eq]
    exact emitExpr_of_term? inner t ht
  | .unary _ op operand, t, h => by
    obtain ⟨t, ht, rfl⟩ := Option.map_eq_some_iff.1 h
    rw [emitExpr_eq]
    refine Emit.runFrom_bind_eq_ok.2 ⟨_, table, emitExpr_of_term? operand t ht, ?_⟩
    have hgap : Emitters.unaryGap op (String.ofList t.text) = String.ofList (op.gap t.text) := by
      unfold Emitters.unaryGap UnaryOp.gap
      rw [String.toList_ofList]
      split <;> rfl
    rw [hgap]
    simp [Term.text, ← String.toList_inj]
  | .binary _ op left right, t, h => by
    obtain ⟨l, hl, h⟩ := Option.bind_eq_some_iff.1 h
    obtain ⟨r, hr, ⟨⟩⟩ := Option.bind_eq_some_iff.1 h
    rw [emitExpr_eq]
    refine Emit.runFrom_bind_eq_ok.2 ⟨_, table, emitExpr_of_term? left l hl, ?_⟩
    refine Emit.runFrom_bind_eq_ok.2 ⟨_, table, emitExpr_of_term? right r hr, ?_⟩
    simp [Term.text, ← String.toList_inj]
  | .conditional _ test consequent alternate, t, h => by
    obtain ⟨t, ht, h⟩ := Option.bind_eq_some_iff.1 h
    obtain ⟨c, hc, h⟩ := Option.bind_eq_some_iff.1 h
    obtain ⟨a, ha, ⟨⟩⟩ := Option.bind_eq_some_iff.1 h
    rw [emitExpr_eq]
    refine Emit.runFrom_bind_eq_ok.2 ⟨_, table, emitExpr_of_term? test t ht, ?_⟩
    refine Emit.runFrom_bind_eq_ok.2 ⟨_, table, emitExpr_of_term? consequent c hc, ?_⟩
    refine Emit.runFrom_bind_eq_ok.2 ⟨_, table, emitExpr_of_term? alternate a ha, ?_⟩
    simp [Term.text, ← String.toList_inj]
  -- No other expression has a term.
  | .construct _ _ _ _, _, h | .call _ _ (some _) _ _, _, h | .template _ _ _, _, h
  | .metaProperty _ _ _, _, h | .superRef _, _, h | .object _ _, _, h | .arrow _ _ _ _ _, _, h
  | .function _ _ _ _ _, _, h | .classExpr _ _, _, h | .hasPrivate _ _ _, _, h
  | .yield _ _ _, _, h | .importCall _ _ _ _, _, h | .tagged _ _ _ _ _, _, h
  | .typed _ _ _, _, h | .markup _, _, h | .await _ _, _, h | .update _ _ _ _, _, h
  | .assign _ _ _ _, _, h | .sequence _ _, _, h => nomatch h

/-- What is written for elements are the pieces of their text. -/
theorem runFrom_items : ∀ (items : List Item) (ts : Terms),
    itemsTerms? env.source items = some ts →
    (emitters.items .plain items).runFrom env table = (.ok ts.pieces, table)
  | [], ts, h => by
    cases h
    rfl
  | .hole :: items, ts, h => by
    obtain ⟨ts, hts, rfl⟩ := Option.map_eq_some_iff.1 h
    exact Emit.runFrom_mapM_cons_eq_ok.2 ⟨_, _, table, rfl, runFrom_items items ts hts, rfl⟩
  | .value e :: items, ts, h => by
    obtain ⟨t, ht, h⟩ := Option.bind_eq_some_iff.1 h
    obtain ⟨ts, hts, ⟨⟩⟩ := Option.bind_eq_some_iff.1 h
    exact Emit.runFrom_mapM_cons_eq_ok.2
      ⟨_, _, table, emitExpr_of_term? e t ht, runFrom_items items ts hts, rfl⟩
  | .spread e :: items, ts, h => by
    obtain ⟨t, ht, h⟩ := Option.bind_eq_some_iff.1 h
    obtain ⟨ts, hts, ⟨⟩⟩ := Option.bind_eq_some_iff.1 h
    refine Emit.runFrom_mapM_cons_eq_ok.2 ⟨_, _, table, ?_, runFrom_items items ts hts, rfl⟩
    exact Emit.runFrom_bind_eq_ok.2 ⟨_, table, emitExpr_of_term? e t ht, rfl⟩

end

end MarkupCompiler
