import MarkupCompiler.Proofs.TermReading

/-!
# Texts of one term

A module that is one expression statement is read as that expression (`parseModule_of_statement`),
and a text that is a term and nothing else is such a module, unless the term is a string literal,
which is a directive there (`ReadsItem.parseModule`).
-/

namespace MarkupCompiler.Grammar

open Syntax Text

/-! ## Statements -/

section

variable {r : Rules} {scope : Scope} {cursor : Cursor} {whole rest : List Char} {t : Term}

/-- A statement that begins with a term is an expression. -/
theorem anyStatement_of_begins (h : Begins whole t rest cursor)
    (hrest : ∀ cursor : Cursor, cursor.At whole rest → cursor.GoesOn) :
    r.anyStatement scope cursor = r.expressionStatement scope cursor := by
  have hwords : ∀ keyword ∈ [Keyword.interfaceKw, .typeKw, .enumKw, .constKw, .abstractKw,
      .namespaceKw, .moduleKw, .globalKw, .declareKw, .varKw, .letKw, .usingKw, .awaitKw, .asyncKw],
      startsTerm (.word "" (some keyword)) = false := by decide
  have hkeyword := fun keyword hmem => isKeyword_of_startsTerm h.starts (hwords keyword hmem)
  have hnot : ¬ (scope.allowsName cursor.token = true ∧ cursor.next.token.kind = .punct .colon) :=
    fun ⟨hname, hcolon⟩ =>
      ((h.goesOn (isParam_of_allowsName h.starts (.inl hname))).elim id (hrest _)).colon hcolon
  have htype : r.typeDeclaration? scope cursor = .ok (none, cursor) := by
    simp [Rules.typeDeclaration?, isNameOnLine, hkeyword]
  have hvariable : variableWords scope cursor = .ok (0, cursor) := by
    simp [variableWords, hkeyword]
  have hother : r.otherStatement scope cursor = r.expressionStatement scope cursor := by
    rw [Rules.otherStatement, Parser.bind_apply, token_apply, ok_bind, Parser.bind_apply,
      peek_apply, ok_bind, Parser.bind_apply, htype, ok_bind]
    dsimp only
    rw [Parser.bind_apply, hvariable, ok_bind]
    simp [hkeyword, hnot]
  rw [← hother, Rules.anyStatement, Parser.bind_apply, token_apply, ok_bind]
  dsimp only
  -- The other statements begin with a token that begins no term.
  have hstarts := h.starts
  generalize cursor.token.kind = kind at hstarts
  cases kind with
  | punct p => cases p <;> first | cases hstarts; done | rfl
  | word name keyword =>
    cases keyword with
    | none => rfl
    | some keyword => cases keyword <;> first | cases hstarts; done | rfl
  | _ => rfl

/-- A statement may end at the end of the text. -/
theorem semicolon_of_finish (h : cursor.token.kind = .finish) :
    semicolon scope cursor = .ok ((), cursor) := by
  obtain ⟨⟨kind, span, onNewLine⟩, here, after, lastStop, defaults, exports, noted⟩ := cursor
  cases h
  rfl

end

/-! ## Modules -/

section

variable {dialect : Dialect} {text : List Char}

/-- The scope in which the statements of a module stand. -/
def Dialect.scope (dialect : Dialect) : Scope :=
  { types := dialect.types, markup := dialect.markup }

/-- A module whose one statement is an expression, and no string, is read as that expression if
nothing is complained of. -/
theorem parseModule_of_statement {span : Span} {e : Expr} {cursor : Cursor}
    (hstarts : startsTerm (Cursor.atFront text).token.kind = true)
    (h : (Rules.bounded (8 * text.length + 31)).anyStatement dialect.scope (Cursor.atFront text) =
      .ok (.expr span e, cursor))
    (hstring : ∀ span value, e ≠ .literal span (.string value))
    (hend : cursor.token.kind = .finish) (hnotes : (Cursor.atFront text).SameNotes cursor) :
    parseModule dialect text = .ok ⟨[.expr span e]⟩ := by
  have hstatement : (Rules.bounded (8 * text.length + 32)).statement dialect.scope
      (Cursor.atFront text) = .ok (.expr span e, cursor) := h
  have hfinish : (Cursor.atFront text).token.kind ≠ .finish := by
    intro hkind
    rw [hkind] at hstarts
    cases hstarts
  have hgoesOn : ¬ ((Cursor.atFront text).token.kind == .punct .rbrace ||
      (Cursor.atFront text).token.kind == .finish) = true := by
    simp [hfinish, ne_punct_of_startsTerm hstarts (p := .rbrace) rfl]
  have hbody : (Rules.bounded (8 * text.length + 32)).bodyStatements dialect.scope
      (Cursor.atFront text) = .ok ([.expr span e], cursor) := by
    rw [Rules.bodyStatements, loop, Parser.bind_apply, Parser.get_apply, ok_bind, iterate,
      Parser.bind_apply]
    dsimp only
    rw [Parser.bind_apply, token_apply, ok_bind, Parser.ite_apply, if_neg hgoesOn,
      Parser.bind_apply, hstatement, ok_bind]
    dsimp only
    -- The second round finds the end of the text.
    cases e with
    | literal inner value =>
      cases value with
      | string value => exact absurd rfl (hstring inner value)
      | _ => simp [iterate, hend]
    | _ => simp [iterate, hend]
  have hmodule : (Rules.bounded (8 * text.length + 32)).moduleStatements dialect.scope
      (Cursor.atFront text) = .ok (⟨[.expr span e]⟩, cursor) := by
    rw [Rules.moduleStatements, Parser.bind_apply, hbody, ok_bind, Parser.bind_apply, token_apply,
      ok_bind]
    simp [hend]
  have hread : readModule dialect text = .ok ⟨⟨[.expr span e]⟩, []⟩ := by
    unfold readModule
    dsimp only
    rw [← Dialect.scope, hmodule]
    have hcomplaints : cursor.complaints dialect.types = [] := by
      unfold Cursor.complaints
      rw [hnotes.noted, hnotes.defaults, hnotes.exports]
      cases dialect.types <;> rfl
    dsimp only
    rw [hcomplaints]
  rw [parseModule, hread]
  rfl

/-- The cursor at the front of a text stands on its first token, if no command line comes first. -/
theorem Cursor.at_atFront {c : Char} (hc : c ≠ '#') (text : List Char) :
    (Cursor.atFront (c :: text)).At (c :: text) (c :: text) := by
  have hcommand : commandLine (c :: text) = [] := by
    unfold commandLine
    split
    · rename_i heq
      cases heq
      exact absurd rfl hc
    · rfl
  refine ⟨Cursor.on_atFront _, 0, ?_⟩
  unfold Cursor.atFront
  rw [hcommand]
  rfl

/-- A text of one term is a module of one expression, unless the term is a string. -/
theorem ReadsItem.parseModule {t : Term} {types : Bool} (h : ReadsItem t.text types t)
    (htypes : dialect.types = true → types = true ∨ '>' ∉ t.text)
    (hsound : t.isSound types = true) (hstring : t.isString = false) :
    ∃ m e, parseModule dialect t.text = .ok m ∧ m.expressions = [e] ∧ e.term? t.text = some t := by
  have hat : (Cursor.atFront t.text).At t.text (t.text ++ []) := by
    obtain ⟨c, more, htext, -, -, hc⟩ := exists_cons_of_isFront (isFront_text t)
    rw [List.append_nil, htext]
    exact Cursor.at_atFront hc more
  have hscope : dialect.scope.inBrackets.Plain t.text types := ⟨htypes, rfl, rfl⟩
  obtain ⟨e, next, hpasses, hread⟩ := h (8 * t.text.length + 30) hscope .finish (by omega) hat
  have hend := hpasses.stands.reads.kind_of_nil
  have hbegins := begins t hsound hat endsTerm_nil
  have hassignment : (Rules.bounded (8 * t.text.length + 31)).assignment dialect.scope.inBrackets
      (Cursor.atFront t.text) = .ok (e, next) := hread
  have hstatement : (Rules.bounded (8 * t.text.length + 31)).anyStatement dialect.scope
      (Cursor.atFront t.text) =
        .ok (.expr ⟨(Cursor.atFront t.text).token.span.start, next.lastStop⟩ e, next) := by
    rw [anyStatement_of_begins hbegins]
    · simp [Rules.expressionStatement, Rules.inner, Rules.expression, hassignment, hend,
        semicolon_of_finish hend]
    · intro cursor hcursor
      exact .of_kind hcursor.reads.kind_of_nil (by decide)
  have hliteral : ∀ span value, e ≠ .literal span (.string value) := by
    rintro span value rfl
    obtain ⟨token, htoken, rfl⟩ := Option.map_eq_some_iff.1 hpasses.term
    obtain ⟨_, -, hleaf⟩ := Option.bind_eq_some_iff.1 htoken
    rw [Term.isString, (Leaf.eq_of_of? hleaf).2] at hstring
    cases hstring
  exact ⟨_, e, parseModule_of_statement hbegins.starts hstatement hliteral hend hpasses.notes, rfl,
    hpasses.term⟩

end

end MarkupCompiler.Grammar
