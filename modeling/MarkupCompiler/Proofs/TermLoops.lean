import MarkupCompiler.Proofs.TermTokens

/-!
# What follows a term

What stands after a term ends it (`Closes`), or is an operator that takes the term as its left
operand (`Follows`). The loops of the grammar that read operators, members and calls, and the items
of a list, are described by what one round does (`LinkStep`, `ListStep`, `operations_of_operator`).
-/

namespace MarkupCompiler.Grammar

open Syntax Text

variable {scope : Scope} {cursor : Cursor}

/-! ## Ends of terms -/

/-- What can stand after an item. -/
inductive Closes : List Char → Prop
  | finish : Closes []
  | closing {c : Char} (hc : c ∈ [')', ']', ',']) (rest : List Char) : Closes (c :: rest)
  | colon (rest : List Char) : Closes (' ' :: ':' :: ' ' :: rest)

/-- What can stand after a term of a level, which the operators after it leave as it is. -/
inductive Follows (types : Bool) (level : Nat) : List Char → Prop
  | closes {rest : List Char} (h : Closes rest) : Follows types level rest
  | question (rest : List Char) : Follows types level (' ' :: '?' :: ' ' :: rest)
  | operator {op : BinaryOp} (htakes : op.takesLeft level = true)
      (hclear : (types && (op == .lt || op == .shl)) = false) (rest : List Char) :
      Follows types level (' ' :: (op.text.toList ++ ' ' :: rest))

/-- Whether an item ends before a token. -/
def isClosing : TokenKind → Bool
  | .finish | .punct .rparen | .punct .rbracket | .punct .comma | .punct .colon => true
  | _ => false

/-- Whether the operators after a term end before a token. -/
def endsOperation : TokenKind → Bool
  | .punct .question => true
  | kind => isClosing kind

/-- Whether no member and no call begins with a token. -/
def isLinkEnd (types : Bool) : TokenKind → Bool
  | .punct .dot | .punct .questionDot | .punct .lbracket | .punct .lparen => false
  | .punct .backquote | .punct .bang => false
  | .punct .lt | .punct .shl => !types
  | _ => true

section

variable {whole rest : List Char} {types : Bool} {level : Nat} {t : Term} {r : Rules}

/-- What closes an item is a token that does. -/
theorem Closes.kind (h : Closes rest) (hat : cursor.At whole rest) :
    isClosing cursor.token.kind = true := by
  cases h with
  | finish =>
    rw [hat.reads.kind_of_nil]
    rfl
  | closing hc rest =>
    simp only [List.mem_cons, List.not_mem_nil, or_false] at hc
    rcases hc with rfl | rfl | rfl <;> rw [(hat.punct rfl rfl).1] <;> rfl
  | colon rest =>
    rw [(hat.blank.punct rfl rfl).1]
    rfl

/-- What can follow a term can follow one that holds together more tightly. -/
theorem Follows.mono {level' : Nat} (h : Follows types level rest) (hle : level ≤ level') :
    Follows types level' rest := by
  cases h with
  | closes h => exact .closes h
  | question rest => exact .question rest
  | operator htakes hclear rest =>
    refine .operator ?_ hclear rest
    grind [BinaryOp.takesLeft]

/-- What follows a term does not go on with its last token. -/
theorem Follows.endsTerm (h : Follows types level rest) : EndsTerm t rest := by
  cases h with
  | closes h =>
    cases h with
    | finish => exact endsTerm_nil
    | closing hc rest =>
      refine endsTerm_cons ?_
      simp only [List.mem_cons, List.not_mem_nil, or_false] at hc ⊢
      tauto
    | colon rest => exact endsTerm_cons (by decide)
  | question rest => exact endsTerm_cons (by decide)
  | operator htakes hclear rest => exact endsTerm_cons (by decide)

/-- What stands after a term is an operator that takes the term, or ends it. -/
theorem Follows.kind (h : Follows types level rest) (hat : cursor.At whole rest) :
    endsOperation cursor.token.kind = true ∨
      ∃ op, binaryOpOf cursor.widened.token.kind = some op ∧ op.takesLeft level = true ∧
        (types && (op == .lt || op == .shl)) = false := by
  cases h with
  | closes h =>
    refine .inl ?_
    unfold endsOperation
    split
    · rfl
    · exact h.kind hat
  | question rest =>
    rw [(hat.blank.punct rfl rfl).1]
    exact .inl rfl
  | operator htakes hclear rest => exact .inr ⟨_, hat.operator.1, htakes, hclear⟩

/-- Nothing of what stands after a term belongs to its last operand. -/
theorem Follows.token (h : Follows types level rest) (hat : cursor.At whole rest) :
    isLinkEnd types cursor.token.kind = true ∧ UpdateOp.ofToken? cursor.token.kind = none ∧
      cursor.token.kind ≠ .punct .arrow ∧ (level ≤ 13 → cursor.token.kind ≠ .punct .starStar) := by
  rcases h.kind hat with hkind | ⟨op, hop, htakes, hclear⟩
  · generalize cursor.token.kind = kind at hkind
    cases kind with
    | finish => exact ⟨rfl, rfl, nofun, fun _ => nofun⟩
    | punct p => cases p <;> first | cases hkind; done | exact ⟨rfl, rfl, nofun, fun _ => nofun⟩
    | _ => cases hkind
  · -- The bracket `>` is a part of an operator, and the other tokens are operators by themselves.
    by_cases hgreater : cursor.token.kind = .punct .gt
    · rw [hgreater]
      exact ⟨rfl, rfl, nofun, fun _ => nofun⟩
    · rw [Cursor.widened_of_ne hgreater] at hop
      generalize cursor.token.kind = kind at hop
      cases kind with
      | punct p =>
        cases p with
        | starStar =>
          cases hop
          exact ⟨rfl, rfl, nofun, fun hle => absurd (of_decide_eq_true htakes) (by omega)⟩
        | lt | shl =>
          cases hop
          exact ⟨by simpa [isLinkEnd] using hclear, rfl, nofun, fun _ => nofun⟩
        | _ => first | cases hop; done | exact ⟨rfl, rfl, nofun, fun _ => nofun⟩
      | word name keyword => exact ⟨rfl, rfl, nofun, fun _ => nofun⟩
      | _ => cases hop

/-! ## Loops of the grammar -/

/-- Where the operators after a term end there is no operator and no keyword. -/
theorem widened_of_endsOperation (h : endsOperation cursor.token.kind = true) :
    cursor.widened = cursor ∧ binaryOpOf cursor.token.kind = none ∧
      ∀ keyword, isKeyword cursor.token keyword = false := by
  have hne : cursor.token.kind ≠ .punct .gt := by
    intro hgreater
    rw [hgreater] at h
    cases h
  rw [Cursor.widened_of_ne hne]
  generalize cursor.token = token at h
  obtain ⟨kind, span, onNewLine⟩ := token
  cases kind with
  | finish => exact ⟨rfl, rfl, fun _ => rfl⟩
  | punct p => cases p <;> first | cases h; done | exact ⟨rfl, rfl, fun _ => rfl⟩
  | _ => cases h

/-- No operator after a term goes on with it, if the operators there leave it as it is. -/
theorem Follows.operations (h : Follows types level rest) (hat : cursor.At whole rest)
    (htypes : scope.inOperator = true) (start : Nat) (e : Expr) :
    r.operations level start e scope cursor = .ok (e, cursor.widened) := by
  apply loop_of_done
  rw [Parser.bind_apply, binaryOp?_apply htypes, ok_bind]
  dsimp only
  rcases h.kind hat with hkind | ⟨op, hop, htakes, -⟩
  · obtain ⟨hwide, hnone, hkeyword⟩ := widened_of_endsOperation hkind
    simp [hwide, hnone, hkeyword]
  · rw [hop]
    dsimp only
    rw [Parser.ite_apply, if_neg]
    · rfl
    · intro hreach
      simp only [Bool.or_eq_true, decide_eq_true_eq, Bool.and_eq_true, beq_iff_eq] at hreach
      obtain ⟨hle, hpow⟩ := BinaryOp.level_of_takesLeft htakes
      rw [← BinaryOp.level_eq_iff] at hpow hreach
      omega

/-- The text at a cursor is the same however much of an operator is looked at. -/
theorem Cursor.here_widened (cursor : Cursor) : cursor.widened.here = cursor.here := by
  unfold Cursor.widened
  split
  · split <;> rfl
  · rfl

/-- The operators after an operand do not depend on how much of the first one was looked at. -/
theorem operations_widened (htypes : scope.inOperator = true) (start : Nat) (e : Expr) :
    r.operations level start e scope cursor.widened = r.operations level start e scope cursor := by
  rw [Rules.operations, loop, Parser.bind_apply, Parser.bind_apply, Parser.get_apply,
    Parser.get_apply, ok_bind, ok_bind, cursor.here_widened, iterate, Parser.bind_apply,
    Parser.bind_apply, Parser.bind_apply, Parser.bind_apply, binaryOp?_apply htypes,
    binaryOp?_apply htypes, Cursor.widened_widened]

/-- An operator that binds tighter than a level takes a right operand. -/
theorem operations_of_operator {op : BinaryOp} {left right : Expr} {start : Nat} {more : List Char}
    {next : Cursor} {result : Expr × Cursor} (htypes : scope.inOperator = true)
    (hat : cursor.At whole (' ' :: (op.text.toList ++ ' ' :: more)))
    (hlevel : (level < op.level || (op == .pow && level == op.level)) = true)
    (hright : r.binary op.level scope cursor.widened.next = .ok (right, next))
    (hmix : (op == .coalesce && (left.isLogical || right.isLogical)) = false)
    (hless : next.here.length < cursor.here.length)
    (h : r.operations level start (.binary ⟨start, next.lastStop⟩ op left right) scope next =
      .ok result) :
    r.operations level start left scope cursor = .ok result := by
  refine loop_of_step ?_ hless h
  rw [Parser.bind_apply, binaryOp?_apply htypes, ok_bind, hat.operator.1]
  dsimp only
  rw [Parser.ite_apply, if_pos hlevel, Parser.bind_apply, advance_apply, ok_bind, Parser.bind_apply,
    hright, ok_bind]
  simp [hmix]

/-- One round of reading the members and calls after an operand. -/
structure LinkStep (r : Rules) (scope : Scope) (start : Nat)
    (step : Expr × Bool → Parser ((Expr × Bool) ⊕ Expr)) : Prop where
  links (e : Expr) : r.links true start e = loop (e, false) step
  member {e : Expr} {isOpen : Bool} {cursor : Cursor} (h : cursor.token.kind = .punct .dot) :
    step (e, isOpen) scope cursor = (Rules.memberAfterDot start e false scope cursor.next).bind
      fun result => .ok (.inl (result.1, isOpen), result.2)
  optional {e : Expr} {isOpen : Bool} {cursor : Cursor}
    (h : cursor.token.kind = .punct .questionDot) :
    step (e, isOpen) scope cursor = (r.optionalLink start e scope cursor.next).bind
      fun result => .ok (.inl (result.1, true), result.2)
  index {e : Expr} {isOpen : Bool} {cursor : Cursor} (h : cursor.token.kind = .punct .lbracket) :
    step (e, isOpen) scope cursor = (r.indexed start e false scope cursor).bind
      fun result => .ok (.inl (result.1, isOpen), result.2)
  call {e : Expr} {isOpen : Bool} {cursor : Cursor} (h : cursor.token.kind = .punct .lparen) :
    step (e, isOpen) scope cursor = (r.called start e scope cursor).bind
      fun result => .ok (.inl (result.1, isOpen), result.2)
  done {e : Expr} {isOpen : Bool} {cursor : Cursor}
    (h : isLinkEnd scope.types cursor.token.kind = true ∨ isLinkEnd false cursor.token.kind = true ∧
      attempt r.expressionTypeArguments scope cursor = .ok (none, cursor)) :
    step (e, isOpen) scope cursor = .ok (.inr (if isOpen then closeChain e else e), cursor)

/-- The loop that reads members and calls has such a round. -/
theorem exists_linkStep (hscope : scope.inDecorator = false) (start : Nat) :
    ∃ step, LinkStep r scope start step := by
  refine ⟨_, fun _ => rfl, ?_, ?_, ?_, ?_, ?_⟩
  all_goals
    rintro e isOpen ⟨⟨kind, span, onNewLine⟩, here, after, lastStop, defaults, exports, noted⟩ hkind
  · cases hkind
    rfl
  · cases hkind
    rfl
  · cases hkind
    simp [hscope]
  · cases hkind
    rfl
  · cases kind with
    | punct p =>
      cases p with
      | lt | shl => by_cases htypes : scope.types = true <;> simp_all [isLinkEnd]
      | _ => first | rfl | simp_all [isLinkEnd]
    | _ => rfl

/-- One round of reading the items of a list. -/
structure ListStep {α : Type} (closing : Punct) (item : Parser α) (scope : Scope)
    (step : List α → Parser (List α ⊕ List α)) : Prop where
  list : listUntil closing item = loop [] step
  closed {items : List α} {cursor : Cursor} (h : cursor.token.kind = .punct closing) :
    step items scope cursor = .ok (.inr items.reverse, cursor)
  last {items : List α} {x : α} {cursor next : Cursor}
    (h : cursor.token.kind ≠ .punct closing ∧ cursor.token.kind ≠ .finish)
    (hitem : item scope cursor = .ok (x, next)) (hnext : next.token.kind = .punct closing) :
    step items scope cursor = .ok (.inr (x :: items).reverse, next)
  more {items : List α} {x : α} {cursor next : Cursor}
    (h : cursor.token.kind ≠ .punct closing ∧ cursor.token.kind ≠ .finish)
    (hitem : item scope cursor = .ok (x, next)) (hnext : next.token.kind = .punct .comma) :
    step items scope cursor = .ok (.inl (x :: items), next.next)

/-- The loop that reads the items of a list has such a round. -/
theorem exists_listStep {α : Type} {p : Punct} (hp : p ≠ .comma) (item : Parser α)
    (scope : Scope) : ∃ step, ListStep p item scope step := by
  refine ⟨_, rfl, ?_, ?_, ?_⟩
  · intro items cursor h
    simp [h]
  · intro items x cursor next h hitem hnext
    simp [h, hitem, hnext]
  · intro items x cursor next h hitem hnext
    simp [h, hitem, hnext, hp.symm]

/-- Skipping blanks adds no text. -/
theorem length_rest_skipBlanks (state : BlankState) (offset : Nat) (newLine : Bool)
    (text : List Char) : (skipBlanks state offset newLine text).rest.length ≤ text.length := by
  fun_induction skipBlanks state offset newLine text <;> simp_all <;> omega

/-- The text from a token on is no longer than what was to be read, and contains what stands after
the token. -/
theorem Cursor.Reads.lengths (h : cursor.Reads rest) :
    cursor.here.length ≤ rest.length ∧ cursor.after.length ≤ cursor.here.length := by
  obtain ⟨offset, h⟩ := h
  have hlength := length_rest_skipBlanks .plain offset false rest
  unfold readToken at h
  dsimp only at h
  split at h
  · rw [Prod.mk.injEq, Prod.mk.injEq] at h
    rw [← h.2.1, ← h.2.2]
    exact ⟨Nat.zero_le _, Nat.le_refl _⟩
  · rw [Prod.mk.injEq, Prod.mk.injEq] at h
    rw [← h.2.1, ← h.2.2, List.length_drop]
    exact ⟨hlength, Nat.sub_le _ _⟩

/-- No more is left at a cursor than the text that it reads. -/
theorem Cursor.Reads.length_le (h : cursor.Reads rest) : cursor.here.length ≤ rest.length :=
  h.lengths.1

/-- The next token begins no earlier. -/
theorem Cursor.Reads.length_next_le (h : cursor.Reads rest) :
    cursor.next.here.length ≤ cursor.here.length :=
  Nat.le_trans cursor.next_reads.length_le h.lengths.2

/-- A cursor before a term has the whole term left. -/
theorem Cursor.At.here_eq (h : cursor.At whole (t.text ++ rest)) :
    cursor.here = t.text ++ rest := by
  obtain ⟨c, more, htext, hc, -⟩ := exists_cons_of_isFront (isFront_text t)
  rw [htext] at h ⊢
  obtain ⟨offset, hread⟩ := h.reads
  rw [List.cons_append, readToken_of_isSolid hc offset _ rfl, Prod.mk.injEq, Prod.mk.injEq] at hread
  exact hread.2.1.symm

/-- Less is left after a term than before it. -/
theorem Cursor.At.length_lt {next : Cursor} (h : cursor.At whole (t.text ++ rest))
    (hnext : next.At whole rest) : next.here.length < cursor.here.length := by
  obtain ⟨c, more, htext, -⟩ := exists_cons_of_isFront (isFront_text t)
  have hle := hnext.reads.length_le
  rw [h.here_eq, htext, List.length_append, List.length_cons]
  omega

end

end MarkupCompiler.Grammar
