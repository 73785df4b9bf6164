import MarkupCompiler.Proofs.TermModules
import MarkupCompiler.Proofs.Totality

/-!
# Expressions written and read back

The text that is written for a term is read back as the same term (`expression_text_reads_back`):
signs side by side stay two signs, an array keeps its holes, a chain its optional links and every
operator its operands. A term has to be sound for that (`Term.isSound`), and one thing that is
asked of it the grammar does not give: a member is written right behind its object, so that the dot
after a number of decimal digits alone is read as a decimal point (`number_member_breaks`).
-/

namespace MarkupCompiler

open Syntax Grammar Text

/-- The text that is written for a sound term is a module of one expression, which is the same term.
The term is no lone string, which would be a directive. No arrow stands in its text if an item in it
begins with a parenthesis, which may then open the parameters of a function. An angle bracket is an
operator where no types may be written, and where none closes it. -/
theorem expression_text_reads_back (env : Env) (table : TemplateTable) (dialect : Dialect)
    (e : Expr) (t : Term) (hterm : e.term? env.source = some t)
    (hsound : t.isSound (dialect.types && t.text.contains '>') = true) (hitem : t.isItem = true)
    (hstring : t.isString = false) (harrow : t.triesArrow true = true → NoArrow t.text) :
    (emitExpr .plain e).runFrom env table = (.ok (String.ofList t.text), table) ∧
    ∃ m e', parseModule dialect t.text = .ok m ∧ m.expressions = [e'] ∧
      e'.term? t.text = e.term? env.source := by
  have htypes (h : dialect.types = true) :
      (dialect.types && t.text.contains '>') = true ∨ '>' ∉ t.text := by
    rw [h, Bool.true_and, List.contains_iff_mem]
    exact Decidable.em _
  obtain ⟨m, e', hparse, hexpressions, hterm'⟩ :=
    ((termReads t (fun htries => harrow (t.triesArrow_of_false htries)) hsound).item hitem
      harrow).parseModule htypes hsound hstring
  exact ⟨emitExpr_of_term? e t hterm, m, e', hparse, hexpressions, hterm'.trans hterm.symm⟩

/-- Signs side by side, a comparison where types may be written, a hole, an optional call and an
argument that is spread. -/
theorem expression_text_reads_back_signs :
    ∃ e t, e.term? "- -a<b??[,c ?. d(... e)]".toList = some t ∧
      t.text = "- -a < b ?? [, c?.d(...e)]".toList ∧
      (emitExpr .plain e).runFrom ⟨"- -a<b??[,c ?. d(... e)]".toList, {}⟩ {} =
        (.ok "- -a < b ?? [, c?.d(...e)]", {}) ∧
      ∃ m e', parseModule (FileId.dialect "a.ts") t.text = .ok m ∧ m.expressions = [e'] ∧
        e'.term? t.text = some t := by
  obtain ⟨m, hparse⟩ : ∃ m, parseModule (FileId.dialect "a.ts")
      "- -a<b??[,c ?. d(... e)]".toList = .ok m := exists_of_isSome_toOption (by decide +kernel)
  have hterms : ∀ m, parseModule (FileId.dialect "a.ts") "- -a<b??[,c ?. d(... e)]".toList = .ok m →
      m.expressions.map (fun e => (e.term? "- -a<b??[,c ?. d(... e)]".toList).map fun t =>
        (t.isSound ((FileId.dialect "a.ts").types && t.text.contains '>') && t.isItem &&
          !t.isString, t.text)) = [some (true, "- -a < b ?? [, c?.d(...e)]".toList)] := by
    decide +kernel
  obtain ⟨e, -, hterm⟩ := List.map_eq_singleton_iff.1 (hterms m hparse)
  obtain ⟨t, hterm, hfacts⟩ := Option.map_eq_some_iff.1 hterm
  rw [Prod.mk.injEq, Bool.and_eq_true, Bool.and_eq_true, Bool.not_eq_true'] at hfacts
  obtain ⟨⟨⟨hsound, hitem⟩, hstring⟩, htext⟩ := hfacts
  have hback := expression_text_reads_back ⟨"- -a<b??[,c ?. d(... e)]".toList, {}⟩ {}
    (FileId.dialect "a.ts") e t hterm hsound hitem hstring (fun _ => by rw [htext]; decide)
  rw [hterm] at hback
  refine ⟨e, t, hterm, htext, ?_, hback.2⟩
  rw [hback.1, htext]
  rfl

/-- A module whose one expression is a member of a number is written as a text that is no module. -/
theorem number_member_breaks :
    ∃ m e, parseModule (FileId.dialect "a.js") "1 .a".toList = .ok m ∧ m.expressions = [e] ∧
      ((emitExpr .plain e).runFrom ⟨"1 .a".toList, {}⟩ {}).1 = .ok "1.a" ∧
      ¬ ∃ m', parseModule (FileId.dialect "a.js") "1.a".toList = .ok m' := by
  obtain ⟨m, hparse⟩ : ∃ m, parseModule (FileId.dialect "a.js") "1 .a".toList = .ok m :=
    exists_of_isSome_toOption (by decide +kernel)
  have hcodes : ∀ m, parseModule (FileId.dialect "a.js") "1 .a".toList = .ok m →
      m.expressions.map (fun e =>
        ((emitExpr .plain e).runFrom ⟨"1 .a".toList, {}⟩ {}).1.toOption) = [some "1.a"] := by
    decide +kernel
  have hunread : (parseModule (FileId.dialect "a.js") "1.a".toList).toOption.isSome = false := by
    decide +kernel
  obtain ⟨e, hexpressions, hcode⟩ := List.map_eq_singleton_iff.1 (hcodes m hparse)
  refine ⟨m, e, hparse, hexpressions, eq_ok_of_toOption hcode, ?_⟩
  rintro ⟨m', hm'⟩
  rw [hm'] at hunread
  cases hunread

end MarkupCompiler
