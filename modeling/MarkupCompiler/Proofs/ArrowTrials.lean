import Mathlib
import MarkupCompiler.Proofs.StatementSpec
import MarkupCompiler.Proofs.TermTokens

/-!
# Trials that come to nothing

Where an item begins the grammar tries to read an arrow function, and after an operand it tries to
read type arguments. The trial fails where a term stands: an arrow function would need an arrow in
the text (`arrow?_of_begins`), and type arguments a bracket that closes them
(`expressionTypeArguments_of_notMem`).
-/

namespace MarkupCompiler.Grammar

open Std.Do Syntax Text

set_option mvcgen.warning false

/-! ## What a trial would have read -/

/-- No arrow stands in a text. -/
abbrev NoArrow (text : List Char) : Prop := ¬ ['=', '>'] <:+: text

/-- A punctuator at a cursor is a part of the text. -/
theorem Cursor.On.infix_of_punct {text : List Char} {cursor : Cursor} (h : cursor.On text)
    {p : Punct} (hkind : cursor.token.kind = .punct p) : p.text.toList <:+: text := by
  have hhere : cursor.here = p.text.toList ++ cursor.after := h.punct p hkind
  rcases h.here with hnil | ⟨before, htext, -⟩
  · rw [hnil, eq_comm, List.append_eq_nil_iff] at hhere
    rw [hhere.1]
    exact List.nil_infix
  · refine ⟨before, cursor.after, ?_⟩
    rw [htext, hhere, List.append_assoc]

section

variable [Source] {c₀ : Cursor} {r : Rules}

/-- A punctuator that has to be there is there, and is not passed. -/
theorem expectHere_spec_kind (p : Punct) :
    Ensures c₀ (expectHere p) fun _ cursor => cursor = c₀ ∧ c₀.token.kind = .punct p := by
  mvcgen [expectHere, -expectHere_spec] with simp_all

/-- A punctuator that has to be there is a part of the text. -/
theorem expect_spec_infix (p : Punct) :
    ⦃fun _ cursor => ⌜cursor.On Source.text⌝⦄ expect p
    ⦃⇓? _ => fun _ cursor => ⌜cursor.On Source.text ∧ p.text.toList <:+: Source.text⌝⦄ := by
  have hinfix := @Cursor.On.infix_of_punct Source.text
  mvcgen [expect, -expect_spec] with grind [Kept]

/-- The head of an arrow function ends before its arrow. -/
theorem arrowHead_spec_arrow (hr : r.Sound) :
    ⦃fun _ cursor => ⌜cursor.On Source.text⌝⦄ r.arrowHead
    ⦃⇓? _ => fun _ cursor => ⌜cursor.On Source.text ∧ cursor.token.kind = .punct .arrow⌝⦄ := by
  mvcgen [Rules.arrowHead, -Rules.arrowHead_spec, -expectHere_spec, expectHere_spec_kind]
    with simp_all

/-- Type arguments are closed by a bracket. -/
theorem expressionTypeArguments_spec_greater (hr : r.Sound) :
    ⦃fun _ cursor => ⌜cursor.On Source.text⌝⦄ r.expressionTypeArguments
    ⦃⇓? _ => fun _ _ => ⌜Punct.gt.text.toList <:+: Source.text⌝⦄ := by
  mvcgen [Rules.expressionTypeArguments, -Rules.expressionTypeArguments_spec, -expect_spec,
    expect_spec_infix] with simp_all

end

/-! ## Trials -/

variable {text : List Char} {scope : Scope} {cursor : Cursor} {depth : Nat}

/-- A trial of a parser that gives no result gives none, and moves nowhere. -/
theorem attempt_of_ne {α : Type} {p : Parser α}
    (h : ∀ result next, p scope cursor ≠ .ok (result, next)) :
    attempt p scope cursor = .ok (none, cursor) := by
  unfold attempt
  split
  · rename_i result next hrun
    exact absurd hrun (h result next)
  · rfl

/-- Parameters that are read on trial are none. -/
theorem possibleArrow_of_noArrow (hon : cursor.On text) (harrow : NoArrow text) :
    (Rules.bounded depth).possibleArrow scope cursor = .ok (none, cursor) := by
  let _ : Source := ⟨text⟩
  have hspec := triple_iff.mp (arrowHead_spec_arrow (Rules.bounded_sound depth)) scope cursor hon
  rw [Rules.possibleArrow, Parser.bind_apply, Parser.get_apply, ok_bind, Parser.bind_apply,
    attempt_of_ne, ok_bind]
  · rfl
  · intro head next hrun
    obtain ⟨hnext, hkind⟩ := hspec head next hrun
    exact harrow (hnext.infix_of_punct hkind)

/-- Type arguments that are read on trial are none. -/
theorem expressionTypeArguments_of_notMem (hon : cursor.On text) (hgreater : '>' ∉ text) :
    attempt (Rules.bounded depth).expressionTypeArguments scope cursor = .ok (none, cursor) := by
  let _ : Source := ⟨text⟩
  have hspec := triple_iff.mp (expressionTypeArguments_spec_greater (Rules.bounded_sound depth))
    scope cursor hon
  refine attempt_of_ne fun types next hrun => hgreater ?_
  exact (hspec types next hrun).subset (.head _)

/-- A term does not begin with a keyword that begins none. -/
theorem isKeyword_of_startsTerm {token : Token} (h : startsTerm token.kind = true)
    {keyword : Keyword} (hkeyword : startsTerm (.word "" (some keyword)) = false) :
    isKeyword token keyword = false := by
  obtain ⟨kind, span, onNewLine⟩ := token
  cases kind with
  | word name found =>
    cases found with
    | none => rfl
    | some found =>
      show (found == keyword) = false
      rw [beq_eq_false_iff_ne]
      rintro rfl
      have hname : startsTerm (.word name (some found)) = startsTerm (.word "" (some found)) := by
        cases found <;> rfl
      exact Bool.false_ne_true (hkeyword.symm.trans (hname.symm.trans h))
  | _ => rfl

/-- A term does not begin with a punctuator that begins none. -/
theorem ne_punct_of_startsTerm {kind : TokenKind} (h : startsTerm kind = true) {p : Punct}
    (hp : startsTerm (.punct p) = false) : kind ≠ .punct p := by
  rintro rfl
  rw [h] at hp
  cases hp

/-- A name of a variable may be a parameter. -/
theorem isParam_of_allowsName {token : Token} (h : startsTerm token.kind = true)
    (hname : scope.allowsName token = true ∨ isKeyword token .thisKw = true) :
    isParam token.kind = true := by
  obtain ⟨kind, span, onNewLine⟩ := token
  cases kind with
  | word name keyword =>
    cases keyword with
    | none => rfl
    | some keyword =>
      cases keyword <;>
        first | rfl | cases h; done | rcases hname with hname | hname <;> cases hname
  | _ => rcases hname with hname | hname <;> cases hname

/-- A parenthesis before a term does not surely open parameters. -/
theorem verdictInParens_of_startsTerm (h : startsTerm cursor.next.token.kind = true)
    (hgoesOn : isParam cursor.next.token.kind = true → cursor.next.next.GoesOn) :
    ∃ verdict next, verdictInParens scope cursor = .ok (verdict, next) ∧ verdict ≠ .yes := by
  rw [verdictInParens, Parser.bind_apply, advance_apply, ok_bind, Parser.bind_apply, token_apply,
    ok_bind, Parser.bind_apply, peek_apply, ok_bind]
  dsimp only
  generalize cursor.next = second at h hgoesOn
  -- After a name, only a colon or a question mark that no term follows would decide for parameters.
  by_cases hname : scope.allowsName second.token = true ∨ isKeyword second.token .thisKw = true
  · have hparam := isParam_of_allowsName h hname
    obtain ⟨hcolon, -, hquestion⟩ := hgoesOn hparam
    cases hkind : second.token.kind with
    | word name keyword =>
      dsimp only
      rw [Parser.bind_apply, isIdentifier_apply, ok_bind, Parser.ite_apply,
        if_neg (by rcases hname with hname | hname <;> simp [hname])]
      cases hthird : second.next.token.kind with
      | punct p =>
        cases p with
        | colon => exact absurd hthird hcolon
        | question =>
          dsimp only
          rw [Parser.bind_apply, advance_apply, ok_bind, Parser.bind_apply, peek_apply, ok_bind]
          dsimp only
          have hstarts := hquestion hthird
          cases hfourth : second.next.next.token.kind with
          | punct p =>
            rw [hfourth] at hstarts
            cases p <;> first | cases hstarts; done | exact ⟨_, _, rfl, nofun⟩
          | _ => exact ⟨_, _, rfl, nofun⟩
        | _ => exact ⟨_, _, rfl, nofun⟩
      | _ => exact ⟨_, _, rfl, nofun⟩
    | _ =>
      rw [hkind] at hparam
      cases hparam
  · rw [not_or, Bool.not_eq_true, Bool.not_eq_true] at hname
    cases hkind : second.token.kind with
    | punct p =>
      rw [hkind] at h
      cases p <;> first
        | cases h; done
        | exact ⟨_, _, rfl, nofun⟩
        | exact ⟨.no, second, by simp [hname], nofun⟩
    | _ => exact ⟨.no, second, by simp [hname], nofun⟩

/-- No arrow function stands where a term begins. A name is no parameter, since neither the term
nor what follows it goes on with an arrow. Whether a parenthesis opens parameters may only come out
where they end, so that no arrow may stand in the text then. -/
theorem arrow?_of_begins {t : Term} {rest : List Char} (h : Begins text t rest cursor)
    (hon : cursor.On text)
    (hrest : ∀ cursor : Cursor, cursor.At text rest → cursor.token.kind ≠ .punct .arrow)
    (harrow : t.triesArrow true = true → NoArrow text) :
    (Rules.bounded depth).arrow? scope cursor = .ok (none, cursor) := by
  have hasync : isKeyword cursor.token .asyncKw = false := isKeyword_of_startsTerm h.starts rfl
  have hless : cursor.token.kind ≠ .punct .lt := ne_punct_of_startsTerm h.starts rfl
  -- A single name is a parameter only before an arrow, and none comes next.
  have hnot : ¬ (scope.allowsName cursor.token = true ∧
      cursor.next.token.kind = .punct .arrow) := by
    rintro ⟨hname, hkind⟩
    rcases h.goesOn (isParam_of_allowsName h.starts (.inl hname)) with hgoesOn | hat
    · exact hgoesOn.arrow hkind
    · exact hrest _ hat hkind
  have hsimple : (Rules.bounded depth).simpleArrow? scope cursor = .ok (none, cursor) := by
    simp [Rules.simpleArrow?, hasync, hnot]
  by_cases hparen : cursor.token.kind = .punct .lparen
  · obtain ⟨htries, hstarts, hgoesOn⟩ := h.inParens hparen
    obtain ⟨verdict, next, hrun, hne⟩ := @verdictInParens_of_startsTerm scope _ hstarts hgoesOn
    have hverdict : arrowVerdict scope cursor = .ok (verdict, cursor) := by
      simp [arrowVerdict, lookAhead, hasync, hparen, hrun]
    rw [Rules.arrow?, Parser.bind_apply, hverdict, ok_bind]
    cases verdict with
    | yes => exact absurd rfl hne
    -- An arrow function is tried, and there is no arrow to find.
    | maybe =>
      dsimp only
      rw [Parser.bind_apply, possibleArrow_of_noArrow hon (harrow htries), ok_bind]
      exact hsimple
    | no => exact hsimple
  · have hverdict : arrowVerdict scope cursor = .ok (.no, cursor) := by
      simp [arrowVerdict, lookAhead, hasync, hparen, hless]
    rw [Rules.arrow?, Parser.bind_apply, hverdict, ok_bind]
    exact hsimple

end MarkupCompiler.Grammar
