import MarkupCompiler.Proofs.ArrowTrials
import MarkupCompiler.Proofs.TermLoops

/-!
# Terms at the levels of the grammar

The grammar reads an expression level by level: items, operations, signs, members and calls,
operands. `ReadsItem`, `ReadsOperation`, `ReadsUnary` and `ReadsSpine` say of a term that its level
reads it from its text, whatever stands after the text and ends it. Each level is climbed once.

The levels from operations down leave open what comes next. They are stated for the rest of a loop:
what the loop gives from the end of the term on, it gives from its beginning.
-/

namespace MarkupCompiler.Grammar

open Syntax Text

variable {scope : Scope} {cursor : Cursor} {depth : Nat}

/-! ## Levels -/

/-- A depth that is enough for something can be gone down once. -/
theorem exists_eq_succ {n depth : Nat} (h : n + 1 ≤ depth) : ∃ depth', depth = depth' + 1 :=
  Nat.exists_eq_add_of_le' (Nat.le_trans (Nat.le_add_left 1 _) h)

/-- A scope in which the operators of terms are operators, angle brackets only if no types may be
written or no bracket closes them. -/
structure Scope.Plain (whole : List Char) (types : Bool) (scope : Scope) : Prop where
  types : scope.types = true → types = true ∨ '>' ∉ whole
  inOperator : scope.inOperator = true
  inDecorator : scope.inDecorator = false

/-- A term was read as an expression, and the cursor has passed it. -/
structure Passes (whole : List Char) (t : Term) (rest : List Char) (cursor : Cursor) (e : Expr)
    (next : Cursor) : Prop where
  term : e.term? whole = some t
  stands : next.At whole rest
  notes : cursor.SameNotes next

section

variable (whole : List Char) (types : Bool) (t : Term)

/-- An operand is read up to where its members and calls go on. -/
def ReadsSpine : Prop := ∀ depth ⦃scope rest cursor step⦄, scope.Plain whole types →
  EndsTerm t rest → 4 * t.text.length ≤ depth → cursor.At whole (t.text ++ rest) →
  LinkStep (Rules.bounded depth) scope cursor.token.span.start step →
  ∃ e next, Passes whole t rest cursor e next ∧
    ∀ result, loop (e, t.isOpen) step scope next = .ok result →
      (Rules.bounded depth).memberOrCall scope cursor = .ok result

/-- A term is read as an operand with the operators before it. -/
def ReadsUnary : Prop := ∀ depth ⦃scope rest cursor⦄, scope.Plain whole types →
  Follows types t.level rest → 4 * t.text.length + 1 ≤ depth → cursor.At whole (t.text ++ rest) →
  ∃ e next, Passes whole t rest cursor e next ∧
    (Rules.bounded depth).prefixed scope cursor = .ok (e, next)

/-- A term is read up to where the operators after it go on. -/
def ReadsOperation : Prop := ∀ depth level ⦃scope rest cursor⦄, scope.Plain whole types →
  level < t.level ∨ level = 12 ∧ t.level = 12 → Follows types t.level rest →
  4 * t.text.length + 2 ≤ depth → cursor.At whole (t.text ++ rest) →
  ∃ e next, Passes whole t rest cursor e next ∧
    ∀ result, (Rules.bounded depth).operations level cursor.token.span.start e scope next =
        .ok result →
      (Rules.bounded depth).operation level scope cursor = .ok result

/-- A term is read as an item. -/
def ReadsItem : Prop := ∀ depth ⦃scope rest cursor⦄, scope.Plain whole types → Closes rest →
  4 * t.text.length + 3 ≤ depth → cursor.At whole (t.text ++ rest) →
  ∃ e next, Passes whole t rest cursor e next ∧
    (Rules.bounded depth).assigned scope cursor = .ok (e, next)

end

section

variable {whole rest : List Char} {types : Bool} {level : Nat} {t : Term}

/-- What begins no link is read as none. -/
theorem Scope.Plain.linkEnd (h : scope.Plain whole types) (hon : cursor.On whole)
    (hend : isLinkEnd types cursor.token.kind = true) :
    isLinkEnd scope.types cursor.token.kind = true ∨ isLinkEnd false cursor.token.kind = true ∧
      attempt (Rules.bounded depth).expressionTypeArguments scope cursor = .ok (none, cursor) := by
  have hfalse : isLinkEnd false cursor.token.kind = true := by
    generalize cursor.token.kind = kind at hend
    cases kind with
    | punct p => cases p <;> first | rfl | cases hend
    | _ => rfl
  cases htypes : scope.types with
  | false => exact .inl hfalse
  | true =>
    rcases h.types htypes with rfl | hgreater
    · exact .inl hend
    · exact .inr ⟨hfalse, expressionTypeArguments_of_notMem hon hgreater⟩

/-- The first token of an operand is no operator that stands before operands. -/
theorem unaryOp_of_startsOperand {kind : TokenKind} (h : kind.startsOperand = true) :
    UnaryOp.ofToken? kind = none ∧ UpdateOp.ofToken? kind = none := by
  cases kind with
  | punct p => cases p <;> first | cases h; done | exact ⟨rfl, rfl⟩
  | word name keyword =>
    cases keyword with
    | none => exact ⟨rfl, rfl⟩
    | some keyword => cases keyword <;> first | cases h; done | exact ⟨rfl, rfl⟩
  | _ => exact ⟨rfl, rfl⟩

/-- An operand before which no operator stands is read with its members and calls, which make a
chain of it if one of them is optional. -/
theorem ReadsSpine.prefixed (h : ReadsSpine whole types t) (hscope : scope.Plain whole types)
    (hfollows : Follows types level rest) (hdepth : 4 * t.text.length + 1 ≤ depth)
    (hat : cursor.At whole (t.text ++ rest)) (hoperand : cursor.token.kind.startsOperand = true) :
    ∃ e next, Passes whole t rest cursor e next ∧
      (Rules.bounded depth).prefixed scope cursor =
        .ok (if t.isOpen then closeChain e else e, next) := by
  obtain ⟨depth, rfl⟩ := exists_eq_succ hdepth
  obtain ⟨step, hstep⟩ := exists_linkStep (r := Rules.bounded depth) hscope.inDecorator
    cursor.token.span.start
  obtain ⟨e, next, hpasses, hcontinue⟩ := h depth hscope hfollows.endsTerm (by omega) hat hstep
  obtain ⟨hend, hupdate, -⟩ := hfollows.token hpasses.stands
  refine ⟨e, next, hpasses, ?_⟩
  have hoperandRead : (Rules.bounded (depth + 1)).leftHandSide scope cursor =
      .ok (if t.isOpen then closeChain e else e, next) :=
    hcontinue _ (loop_of_done (hstep.done (hscope.linkEnd hpasses.stands.on hend)))
  -- No prefix stands before the operand, so it is read as it is.
  have hstarts : startsTerm cursor.token.kind = true := by
    rw [startsTerm, hoperand]
    rfl
  have hless := ne_punct_of_startsTerm hstarts (p := .lt) rfl
  obtain ⟨hunary, hnoUpdate⟩ := unaryOp_of_startsOperand hoperand
  have hkeyword : isKeyword cursor.token .awaitKw = false := isKeyword_of_startsTerm hstarts rfl
  have hawait : Rules.atAwait? scope cursor = .ok (false, cursor) := by
    simp [Rules.atAwait?, hkeyword]
  have hmarkup : Rules.atMarkup? scope cursor = .ok (false, cursor) := by
    simp [Rules.atMarkup?, hless]
  rw [Rules.prefixed, Parser.bind_apply, token_apply, ok_bind]
  dsimp only
  rw [hunary, hnoUpdate]
  dsimp only
  rw [Parser.bind_apply, hawait, ok_bind]
  simp [hless, Rules.updated, hmarkup, hoperandRead, hupdate]

/-- A term with no operator between two operands is the operand of the operators after it. -/
theorem ReadsUnary.operation (h : ReadsUnary whole types t)
    (hsound : t.isSound types = true) : ReadsOperation whole types t := by
  intro depth level scope rest cursor hscope _ hfollows hdepth hat
  obtain ⟨depth, rfl⟩ := exists_eq_succ hdepth
  obtain ⟨e, next, hpasses, hread⟩ := h depth hscope hfollows (by omega) hat
  refine ⟨e, next, hpasses, fun result hresult => ?_⟩
  have hstarts := (begins t hsound hat hfollows.endsTerm).starts
  have hunary : (Rules.bounded (depth + 1)).unary scope cursor = .ok (e, next) := hread
  rw [Rules.operation, Parser.bind_apply, token_apply, ok_bind]
  dsimp only
  cases hkind : cursor.token.kind with
  | privateName name =>
    rw [hkind] at hstarts
    cases hstarts
  | _ =>
    dsimp only
    rw [Parser.bind_apply, hunary]
    exact hresult

/-- An expression is `||` or `&&` of two operands if its term is. -/
theorem isLogical_of_term? {source : List Char} {e : Expr} (h : e.term? source = some t) :
    e.isLogical = t.isLogical := by
  unfold Expr.term? at h
  split at h <;>
    simp only [Option.map_eq_some_iff, bind, Option.bind_eq_some_iff, reduceCtorEq] at h
  all_goals grind [Expr.isLogical, Term.isLogical]

/-- A term is read with all operators after it that bind tighter than a level. -/
theorem ReadsOperation.complete (h : ReadsOperation whole types t) (depth : Nat)
    (hscope : scope.Plain whole types)
    (hlevel : level < t.level ∨ level = 12 ∧ t.level = 12) (hfollows : Follows types level rest)
    (hdepth : 4 * t.text.length + 2 ≤ depth) (hat : cursor.At whole (t.text ++ rest)) :
    ∃ e next, Passes whole t rest cursor e next ∧
      (Rules.bounded depth).operation level scope cursor = .ok (e, next.widened) := by
  obtain ⟨e, next, hpasses, hcontinue⟩ := h depth level hscope hlevel (hfollows.mono (by omega))
    hdepth hat
  exact ⟨e, next, hpasses, hcontinue _ (hfollows.operations hpasses.stands hscope.inOperator _ e)⟩

/-- Two operands with an operator between them. -/
theorem ReadsOperation.binary {op : BinaryOp} {left right : Term}
    (hleft : ReadsOperation whole types left) (hright : ReadsOperation whole types right)
    (htakesLeft : op.takesLeft left.level = true) (htakesRight : op.takesRight right.level = true)
    (hmix : (op == .coalesce && (left.isLogical || right.isLogical)) = false)
    (hclear : (types && (op == .lt || op == .shl)) = false) :
    ReadsOperation whole types (.binary op left right) := by
  intro depth level scope rest cursor hscope hlevel hfollows hdepth hat
  simp only [Term.text, Term.level, List.append_assoc, List.cons_append, List.length_append,
    List.length_cons] at hlevel hfollows hdepth hat
  obtain ⟨depth, rfl⟩ := exists_eq_succ hdepth
  obtain ⟨hleLeft, hpowLeft⟩ := BinaryOp.level_of_takesLeft htakesLeft
  have hltRight := BinaryOp.level_of_takesRight htakesRight
  rw [← BinaryOp.level_eq_iff] at hpowLeft hltRight
  obtain ⟨l, middle, hl, hcontinue⟩ := hleft (depth + 1) level hscope (by omega)
    (.operator htakesLeft hclear _) (by omega) hat
  obtain ⟨-, hnext, hhere⟩ := hl.stands.operator
  obtain ⟨r, next, hr, hread⟩ := hright.complete depth hscope hltRight hfollows (by omega)
    hnext.blank
  refine ⟨.binary ⟨cursor.token.span.start, next.widened.lastStop⟩ op l r, next,
    ⟨?_, hr.stands, ?_⟩, fun result hresult => hcontinue result ?_⟩
  · simp [Expr.term?, hl.term, hr.term]
  · exact ((hl.notes.trans middle.sameNotes_widened).trans (Cursor.sameNotes_next _)).trans hr.notes
  · -- The loop of the left operand takes the operator and goes on with both operands.
    refine operations_of_operator hscope.inOperator hl.stands ?_ hread ?_ ?_ ?_
    · rw [Bool.or_eq_true, decide_eq_true_eq, Bool.and_eq_true, beq_iff_eq, beq_iff_eq,
        ← BinaryOp.level_eq_iff]
      omega
    · rw [isLogical_of_term? hl.term, isLogical_of_term? hr.term]
      exact hmix
    · have hlength := hr.stands.reads.length_le
      rw [Cursor.here_widened, hhere]
      simp only [List.length_append, List.length_cons]
      omega
    · rw [operations_widened hscope.inOperator]
      exact hresult

/-- An operand with plain members and calls. -/
theorem ReadsSpine.unary (h : ReadsSpine whole types t)
    (hsound : t.isSound types = true) (hspine : t.isSpine = true)
    (hopen : t.isOpen = false) : ReadsUnary whole types t := by
  intro depth scope rest cursor hscope hfollows hdepth hat
  have hoperand := (begins t hsound hat hfollows.endsTerm).operand hspine
  obtain ⟨e, next, hpasses, hread⟩ := h.prefixed hscope hfollows hdepth hat hoperand
  rw [hopen, if_neg Bool.false_ne_true] at hread
  exact ⟨e, next, hpasses, hread⟩

/-- An operand with members and calls of which one is optional. -/
theorem ReadsSpine.chain (h : ReadsSpine whole types t)
    (hsound : t.isSound types = true) (hopen : t.isOpen = true) :
    ReadsUnary whole types (.chain t) := by
  intro depth scope rest cursor hscope hfollows hdepth hat
  have hspine : t.isSpine = true := by cases t <;> first | rfl | cases hopen
  have hoperand := (begins t hsound hat hfollows.endsTerm).operand hspine
  obtain ⟨e, next, hpasses, hread⟩ := h.prefixed hscope hfollows hdepth hat hoperand
  have hclose : closeChain e = .chain e.span e := by
    cases e with
    | typed span mark inner => cases hpasses.term
    | _ => rfl
  rw [hopen, if_pos rfl, hclose] at hread
  refine ⟨_, next, ⟨?_, hpasses.stands, hpasses.notes⟩, hread⟩
  simp [Expr.term?, hpasses.term]

/-- An operator before an operand. -/
theorem ReadsUnary.unary {op : UnaryOp} (h : ReadsUnary whole types t) (hlevel : 13 ≤ t.level) :
    ReadsUnary whole types (.unary op t) := by
  intro depth scope rest cursor hscope hfollows hdepth hat
  simp only [Term.text, List.append_assoc, List.length_append] at hdepth hat
  obtain ⟨hop, hnext⟩ := hat.unary (isFront_text t)
  have hlength : 0 < op.text.toList.length := by cases op <;> decide
  obtain ⟨depth, rfl⟩ := exists_eq_succ hdepth
  obtain ⟨e, next, hpasses, hread⟩ := h depth hscope (hfollows.mono hlevel) (by omega) hnext
  have hpow : next.token.kind ≠ .punct .starStar :=
    (hfollows.token hpasses.stands).2.2.2 (Nat.le_refl _)
  have hunary : (Rules.bounded (depth + 1)).unary scope cursor.next = .ok (e, next) := hread
  refine ⟨.unary ⟨cursor.token.span.start, next.lastStop⟩ op e, next,
    ⟨?_, hpasses.stands, cursor.sameNotes_next.trans hpasses.notes⟩, ?_⟩
  · simp [Expr.term?, hpasses.term]
  · rw [Rules.prefixed, Parser.bind_apply, token_apply, ok_bind]
    dsimp only
    rw [hop]
    simp [hunary, hpow]

/-- A term where an item begins is tried as an arrow function, and then read as an operation. -/
theorem assigned_of_begins (hsound : t.isSound types = true)
    (hat : cursor.At whole (t.text ++ rest)) (hfollows : Follows types level rest)
    (harrow : t.triesArrow true = true → NoArrow whole) {e : Expr} {next : Cursor}
    (h : (Rules.bounded depth).operation 0 scope cursor = .ok (e, next)) :
    (isClosing next.token.kind = true →
      (Rules.bounded (depth + 1)).assigned scope cursor = .ok (e, next)) ∧
    (next.token.kind = .punct .question → (Rules.bounded (depth + 1)).assigned scope cursor =
      (Rules.bounded (depth + 1)).branches cursor.token.span.start e scope next) := by
  have hleft : (Rules.bounded (depth + 1)).binary 0 scope cursor = .ok (e, next) := h
  have hbegins := begins t hsound hat hfollows.endsTerm
  have harrow? := @arrow?_of_begins _ scope _ (depth + 1) _ _ hbegins hat.on
    (fun _ hrest => (hfollows.token hrest).2.2.1) harrow
  rw [Rules.assigned, Parser.bind_apply, startOffset_apply, ok_bind, Parser.bind_apply,
    atKeyword?_apply, ok_bind, isKeyword_of_startsTerm hbegins.starts rfl, Parser.bind_apply,
    Parser.read_apply, ok_bind, Parser.ite_apply, Bool.false_and, if_neg Bool.false_ne_true,
    Parser.bind_apply, harrow?, ok_bind]
  dsimp only
  rw [Parser.bind_apply, hleft, ok_bind, Parser.bind_apply, token_apply, ok_bind]
  dsimp only
  constructor
  · intro hclosing
    generalize next.token.kind = kind at hclosing
    cases kind with
    | finish => rfl
    | punct p => cases p <;> first | cases hclosing; done | rfl
    | _ => cases hclosing
  · intro hquestion
    rw [hquestion]

/-- A term that is no conditional expression is an item. -/
theorem ReadsOperation.item (h : ReadsOperation whole types t)
    (harrow : t.triesArrow true = true → NoArrow whole) (hsound : t.isSound types = true)
    (hlevel : 0 < t.level) : ReadsItem whole types t := by
  intro depth scope rest cursor hscope hcloses hdepth hat
  obtain ⟨depth, rfl⟩ := exists_eq_succ hdepth
  obtain ⟨e, next, hpasses, hread⟩ := h.complete depth hscope (.inl hlevel)
    (.closes hcloses) (by omega) hat
  have hclosing := hcloses.kind hpasses.stands
  rw [Cursor.widened_of_ne (by intro hkind; rw [hkind] at hclosing; cases hclosing)] at hread
  have hfollows : Follows types 0 rest := .closes hcloses
  exact ⟨e, next, hpasses, (assigned_of_begins hsound hat hfollows harrow hread).1 hclosing⟩

/-- A test and two branches. -/
theorem ReadsItem.conditional {test consequent alternate : Term}
    (htest : ReadsOperation whole types test) (hconsequent : ReadsItem whole types consequent)
    (halternate : ReadsItem whole types alternate)
    (harrow : test.triesArrow true = true → NoArrow whole) (hsound : test.isSound types = true)
    (hlevel : 0 < test.level) :
    ReadsItem whole types (.conditional test consequent alternate) := by
  intro depth scope rest cursor hscope hcloses hdepth hat
  simp only [Term.text, List.append_assoc, List.cons_append, List.nil_append, List.length_append,
    List.length_cons] at hdepth hat
  obtain ⟨depth, rfl⟩ := exists_eq_succ hdepth
  obtain ⟨e, question, he, hread⟩ := htest.complete depth hscope (.inl hlevel)
    (.question _) (by omega) hat
  obtain ⟨hquestion, hafter, -⟩ := he.stands.blank.punct rfl rfl
  -- Only a `>` is widened to a longer operator, and the test ends before a `?`.
  rw [Cursor.widened_of_ne (by rw [hquestion]; exact nofun)] at hread
  have hbranch : Scope.Plain whole types { scope with inOperator := true, inBranch := true } :=
    ⟨hscope.types, rfl, hscope.inDecorator⟩
  obtain ⟨c, colon, hc, hreadConsequent⟩ := hconsequent depth hbranch (.colon _) (by omega)
    hafter.blank
  obtain ⟨hcolon, hafterColon, -⟩ := hc.stands.blank.punct rfl rfl
  obtain ⟨a, next, ha, hreadAlternate⟩ := halternate depth hscope hcloses (by omega)
    hafterColon.blank
  refine ⟨.conditional ⟨cursor.token.span.start, next.lastStop⟩ e c a, next,
    ⟨?_, ha.stands, ?_⟩, ?_⟩
  · simp [Expr.term?, he.term, hc.term, ha.term]
  · exact ((((he.notes.trans question.sameNotes_next).trans hc.notes).trans
      colon.sameNotes_next).trans ha.notes)
  · rw [(assigned_of_begins hsound hat (@Follows.question types 0 _) harrow hread).2 hquestion]
    have hfirst : withReader
        (fun scope : Scope => { scope with inOperator := true, inBranch := true })
        (Rules.bounded (depth + 1)).assignment scope question.next = .ok (c, colon) :=
      hreadConsequent
    have hsecond : (Rules.bounded (depth + 1)).assignment scope colon.next = .ok (a, next) :=
      hreadAlternate
    simp [Rules.branches, expect, hquestion, hfirst, hcolon, hsecond]

end

end MarkupCompiler.Grammar
