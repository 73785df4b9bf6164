import MarkupCompiler.Proofs.CallingElements
import MarkupCompiler.Proofs.Rewriting
import MarkupCompiler.Proofs.StatementSpec

/-!
# Imports match use

A compiled module imports the helpers that a search for calls finds in it. Where the source has no
dollar signs, ampersands and escapes, the search misses none and finds none in vain: the names that
stand after `_$` in the templates and the body are the imported ones (`imports_match_use`), all of
them helpers of the target. Without the restriction a source could spell the name of a helper
itself.
-/

namespace MarkupCompiler

open Syntax Grammar Text

/-! ## Declarations -/

/-- The declarations of templates as they stand in a module: on lines of their own. -/
def templateLines (target : Target) (table : TemplateTable) : String :=
  if (declarations target table).isEmpty then "" else declarations target table ++ "\n"

variable {table : TemplateTable} {target : Target}

/-- Declarations of plain templates only call helpers of the target. -/
theorem isCode_declarations (h : table.IsPlain) : IsCode target (declarations target table) := by
  unfold declarations TemplateTable.entries
  refine isCode_joinWith (by decide) fun line hline => ?_
  rw [List.map_map, List.mem_map] at hline
  obtain ⟨⟨text, index⟩, hentry, rfl⟩ := hline
  have htext := h text (List.fst_mem_of_mem_zipIdx hentry)
  have hquoted := lacks_quote htext
  cases target with
  | client =>
    show IsCode .client
      ("const " ++ TemplateTable.name index ++ " = _$template(" ++ quote text ++ ");")
    repeat' with_reducible apply isCode_append
    all_goals simp +decide [hquoted]
  | server =>
    show IsCode .server ("const " ++ TemplateTable.name index ++ " = " ++ text ++ ";")
    repeat' with_reducible apply isCode_append
    all_goals simp +decide [htext]

/-- Declarations on lines of their own are code, too. -/
theorem isCode_templateLines (h : table.IsPlain) : IsCode target (templateLines target table) := by
  unfold templateLines
  split
  · exact isCode_of_lacks (by decide)
  · exact isCode_append (isCode_declarations h) (isCode_of_lacks (by decide))

/-! ## Calls in several texts -/

/-- What occurs in two texts with a character between them that it lacks occurs in one of them. -/
theorem Text.infix_append_cons_iff {part front back : List Char} {c : Char} (hc : c ∉ part) :
    part <:+: front ++ c :: back ↔ part <:+: front ∨ part <:+: back := by
  constructor
  · rintro ⟨before, after, heq⟩
    rcases List.append_eq_append_iff.1 heq with ⟨between, rfl, -⟩ | ⟨between, hfront, hback⟩
    · exact .inl ⟨before, between, rfl⟩
    · rcases between with _ | ⟨d, between⟩
      · rw [List.append_nil] at hfront
        exact .inl ⟨before, [], by rw [List.append_nil, hfront]⟩
      · obtain ⟨rfl, rfl⟩ := List.cons.inj hback
        -- The character is not in the part, and so it stands before it.
        rcases List.append_eq_append_iff.1 hfront with ⟨left, -, rfl⟩ | ⟨left, rfl, hright⟩
        · exact absurd (List.mem_append_right _ (.head _)) hc
        · rcases left with _ | ⟨d, left⟩
          · rw [List.nil_append] at hright
            exact absurd (hright ▸ (.head _)) hc
          · obtain ⟨rfl, rfl⟩ := List.cons.inj hright
            exact .inr ⟨left, after, rfl⟩
  · rintro (h | h)
    · exact List.infix_append_of_infix_left h
    · exact List.infix_append_of_infix_right (List.infix_cons h)

/-- A helper is called in the templates or the body of a module if it is called in what stands after
the import. -/
theorem callsHelper_templateLines_append {body : String} {name : String}
    (hname : name ∈ target.helpers) :
    callsHelper (templateLines target table ++ body).toList name = true ↔
      callsHelper (declarations target table).toList name = true ∨
        callsHelper body.toList name = true := by
  have hfeed : '\n' ∉ ("_$" ++ name ++ "(").toList := by
    have hall : ∀ name ∈ target.helpers, '\n' ∉ ("_$" ++ name ++ "(").toList := by
      cases target <;> decide
    exact hall name hname
  unfold templateLines
  split
  · rename_i hempty
    have hnone : ¬ callsHelper (declarations target table).toList name = true := by
      rw [String.isEmpty_iff.1 hempty, callsHelper, occurs_iff]
      intro hinfix
      have hcall := List.infix_nil.1 hinfix
      simp at hcall
    rw [String.empty_append, or_iff_right hnone]
  · unfold callsHelper
    have hrest : (declarations target table ++ "\n" ++ body).toList =
        (declarations target table).toList ++ '\n' :: body.toList := by
      rw [String.toList_append, String.toList_append, List.append_assoc]
      rfl
    rw [occurs_iff, occurs_iff, occurs_iff, hrest]
    exact infix_append_cons_iff hfeed

/-! ## Imports -/

/-- The import of a module and what stands after it: the imported names are those that stand after
`_$`, all of them helpers of the target. -/
structure MatchesUse (options : CompileOptions) (imported : List String) (line rest : String) :
    Prop where
  /-- The names are helpers of the target, in the order of these. -/
  order : imported.Sublist options.target.helpers
  /-- No name is imported twice. -/
  once : imported.Nodup
  /-- Each name is imported under itself with `_$` before it. Where there are none, there is no
  line. -/
  line_eq : line = if imported = [] then "" else
    "import \x7b " ++ joinWith ", " (imported.map fun name => name ++ " as _$" ++ name)
      ++ " \x7d from " ++ quote options.runtimeModule ++ ";\n"
  /-- The names are those that are used. -/
  used : ∀ name, name ∈ imported ↔ NamesHelper rest.toList name
  /-- What is used is a helper of the target, and is called. -/
  called : ∀ name, NamesHelper rest.toList name →
    name ∈ options.target.helpers ∧ callsHelper rest.toList name = true
  /-- There is no line exactly if no helper is used. -/
  absent : line = "" ↔ ∀ name, ¬ NamesHelper rest.toList name

/-- Code that only calls helpers of the target is imported for as it is used. -/
theorem matchesUse_usedHelpers {options : CompileOptions} (htable : table.IsPlain) {body : String}
    (hbody : IsCode options.target body) :
    MatchesUse options
      (usedHelpers options.target.helpers [declarations options.target table, body])
      (importLine (usedHelpers options.target.helpers [declarations options.target table, body])
        options.runtimeModule) (templateLines options.target table ++ body) := by
  -- In code of this kind a helper is named only where it is called.
  have hcode : OnlyCalls options.target (templateLines options.target table ++ body).toList :=
    isCode_append (isCode_templateLines htable) hbody
  have hused : ∀ name, name ∈ usedHelpers options.target.helpers
      [declarations options.target table, body] ↔
        NamesHelper (templateLines options.target table ++ body).toList name := by
    intro name
    rw [hcode.namesHelper_iff, usedHelpers, List.mem_filter]
    refine and_congr_right fun hname => ?_
    rw [callsHelper_templateLines_append hname]
    simp
  generalize hnames : usedHelpers options.target.helpers
    [declarations options.target table, body] = names at hused ⊢
  have horder : names.Sublist options.target.helpers := hnames ▸ List.filter_sublist
  have hline : importLine names options.runtimeModule = if names = [] then "" else
      "import \x7b " ++ joinWith ", " (names.map fun name => name ++ " as _$" ++ name)
        ++ " \x7d from " ++ quote options.runtimeModule ++ ";\n" := by
    unfold importLine
    simp
  refine ⟨horder, horder.nodup (nodup_helpers _), hline, hused,
    fun name hname => hcode.namesHelper_iff.1 hname, ?_⟩
  cases names with
  | nil => exact iff_of_true rfl fun name hname => absurd ((hused name).2 hname) List.not_mem_nil
  | cons first names =>
    refine iff_of_false ?_ fun hnone => hnone first ((hused first).1 (.head _))
    rw [hline, if_neg (List.cons_ne_nil _ _)]
    simp

/-- Imports match use. For both targets and all options, a compiled module whose source has no
dollar signs, ampersands and escapes is an import of helpers, the declarations of its templates and
its rewritten body. The imported names are those that stand after `_$` in the declarations and the
body: helpers of the target, each once and in their order. -/
theorem imports_match_use (source fileId code : String) (options : CompileOptions)
    (hsource : ∀ c ∈ ['$', '&', '\\'], c ∉ source.toList)
    (hcode : compile source fileId options = .ok (some code)) :
    ∃ m rs table imported line rest, parseModule (FileId.dialect fileId) source.toList = .ok m ∧
      (emitReplacements m.markups).runFrom ⟨source.toList, options⟩ {} = (.ok rs, table) ∧
      rest = templateLines options.target table
        ++ String.ofList (Replacement.applyAll 0 source.toList rs) ∧
      code = line ++ rest ∧ MatchesUse options imported line rest := by
  obtain ⟨m, rs, table, hparse, hrun, -, hassembled⟩ := exists_of_compile_eq hcode
  have hplain : PlainSource source.toList :=
    ⟨hsource '$' (by decide), hsource '&' (by decide), hsource '\\' (by decide)⟩
  -- All markup of the module stands in its place and is spelled in the source.
  obtain ⟨hopened, hspelled⟩ := opened_of_parse hparse
  have hfits : ∀ piece ∈ m.markups, piece.Fits source.toList := by
    intro piece hpiece
    have hlayout : piece.layout ∈ (m.layout source.toList).outermost Layout.isMarkup := by
      rw [m.outermost_layout]
      exact List.mem_map_of_mem hpiece
    exact ⟨hopened.of_mem (Layout.mem_of_mem_outermost hlayout).1,
      stmts_allSpelled_markups m.statements hspelled piece hpiece⟩
  obtain ⟨htable, hrs⟩ := @yields_emitReplacements ⟨source.toList, options⟩ hplain m.markups hfits
    {} rs table nofun hrun
  have hbody : IsCode options.target
      (String.ofList (Replacement.applyAll 0 source.toList rs)) := by
    unfold IsCode
    rw [String.toList_ofList]
    exact OnlyCalls.applyAll hplain.dollar (fun r hr => (hrs r hr).1) (fun r hr => (hrs r hr).2)
  refine ⟨m, rs, table, _, _, _, hparse, hrun, rfl, ?_, matchesUse_usedHelpers htable hbody⟩
  rw [hassembled, assemble, String.append_assoc]
  rfl

/-- A paragraph with a value in it. -/
def valueSource : String := "<p>\x7bx\x7d</p>"

/-- The code of the paragraph on the client. -/
def valueCode : String :=
  "import \x7b template as _$template, clone as _$clone, insert as _$insert, " ++
  "findMarker as _$findMarker \x7d from \"sprig/dom\";\n" ++
  "const _tmpl$0 = _$template(\"<p><!--#0--></p>\");\n" ++
  "(() => \x7b\n  const _root$ = _$clone(_tmpl$0);\n" ++
  "  const _m$0 = _$findMarker(_root$, \"#0\");\n" ++
  "  _$insert(_m$0.parentNode, x, _m$0);\n  return _root$;\n\x7d)()"

/-- The code of the paragraph on the server. -/
def valueServerCode : String :=
  "import \x7b ssr as _$ssr, escape as _$escape \x7d from \"sprig/server\";\n" ++
  "const _tmpl$0 = [\"<p>\", \"<!--#0--></p>\"];\n_$ssr(_tmpl$0, _$escape(x))"

/-- The paragraph compiles on both sides, and imports match use. -/
theorem imports_match_use_value :
    (compile valueSource "a.jsx" {} = .ok (some valueCode) ∧
      ∃ imported line rest, valueCode = line ++ rest ∧ MatchesUse {} imported line rest) ∧
    compile valueSource "a.jsx" { target := .server } = .ok (some valueServerCode) ∧
      ∃ imported line rest, valueServerCode = line ++ rest ∧
        MatchesUse { target := .server } imported line rest := by
  have hsource : ∀ c ∈ ['$', '&', '\\'], c ∉ valueSource.toList := by
    simp [valueSource]
  have hclient : compile valueSource "a.jsx" {} = .ok (some valueCode) :=
    eq_ok_of_toOption (by decide +kernel)
  have hserver : compile valueSource "a.jsx" { target := .server } = .ok (some valueServerCode) :=
    eq_ok_of_toOption (by decide +kernel)
  obtain ⟨-, -, -, imported, line, rest, -, -, -, heq, hmatches⟩ :=
    imports_match_use valueSource "a.jsx" valueCode {} hsource hclient
  obtain ⟨-, -, -, imported', line', rest', -, -, -, heq', hmatches'⟩ :=
    imports_match_use valueSource "a.jsx" valueServerCode { target := .server } hsource hserver
  exact ⟨⟨hclient, imported, line, rest, heq, hmatches⟩,
    hserver, imported', line', rest', heq', hmatches'⟩

end MarkupCompiler
