import MarkupCompiler.Compile.Compiler
import MarkupCompiler.Proofs.Emission
import MarkupCompiler.Proofs.Splicing

/-!
# Compilation rewrites markup and nothing else

The code of a module is its source with code in place of the outermost markup, behind a header. The
code of each piece of markup is emitted from the table of templates that the pieces before it have
left (`EmittedInTurn`), and the header declares the templates of the table that is left in the end.
What stands between the markup is kept to the byte.
-/

namespace MarkupCompiler

open Syntax Grammar Text

/-! ## The outcome of a file -/

/-- What comes of a file that may hold markup, by what comes of its parts. -/
theorem compile_of_containsMarkup {source : String} (fileId : String) (options : CompileOptions)
    (hmay : containsMarkup source.toList = true) :
    compile source fileId options =
      match parseModule (FileId.dialect fileId) source.toList with
      | .error complaints => .error (.ofDiagnostics fileId source.toList complaints)
      | .ok m =>
        match (emitReplacements m.markups).runFrom ⟨source.toList, options⟩ {} with
        | (.error error, _) => .error (.ofEmit error fileId source.toList)
        | (.ok replacements, table) =>
          .ok (Compiler.finish options source.toList table replacements) := by
  unfold compile Compiler.compile TemplateTable.reset
  dsimp only
  rw [if_pos hmay]
  cases parseModule (FileId.dialect fileId) source.toList with
  | error complaints => rfl
  | ok m =>
    dsimp only
    rcases (emitReplacements m.markups).runFrom ⟨source.toList, options⟩ {} with
      ⟨error | replacements, table⟩
    · rfl
    · rfl

/-- A file that cannot hold markup is left alone. -/
theorem compile_of_not_containsMarkup {source : String} (fileId : String)
    (options : CompileOptions) (hnot : containsMarkup source.toList = false) :
    compile source fileId options = .ok none := by
  unfold compile Compiler.compile
  dsimp only
  rw [hnot]
  rfl

/-- Code of a file comes from its tree, in which there is markup, and from code for all of it. -/
theorem exists_of_compile_eq {source fileId code : String} {options : CompileOptions}
    (h : compile source fileId options = .ok (some code)) :
    ∃ m replacements table, parseModule (FileId.dialect fileId) source.toList = .ok m ∧
      (emitReplacements m.markups).runFrom ⟨source.toList, options⟩ {} =
        (.ok replacements, table) ∧
      replacements ≠ [] ∧
      code = assemble options table
        (String.ofList (Replacement.applyAll 0 source.toList replacements)) := by
  cases hmay : containsMarkup source.toList with
  | false =>
    rw [compile_of_not_containsMarkup fileId options hmay] at h
    cases h
  | true =>
    rw [compile_of_containsMarkup fileId options hmay] at h
    split at h
    · cases h
    · rename_i m hparse
      split at h
      · cases h
      · rename_i replacements table hrun
        refine ⟨m, replacements, table, hparse, hrun, ?_⟩
        cases replacements with
        | nil => cases h
        | cons first rest =>
          have hcode := Option.some.inj (Except.ok.inj h)
          exact ⟨List.cons_ne_nil _ _, hcode.symm⟩

/-! ## The code of the markup -/

/-- Codes for pieces of markup, each emitted from the table that the pieces before it have left. -/
def EmittedInTurn (env : Env) :
    TemplateTable → List Markup → List String → TemplateTable → Prop
  | table, [], [], table' => table' = table
  | table, m :: ms, code :: codes, table' =>
    ∃ table₁, (emitMarkup m).runFrom env table = (.ok code, table₁) ∧
      EmittedInTurn env table₁ ms codes table'
  | _, _, _, _ => False

/-- Codes as replacements of the markup that they are for. -/
def replacementsFor (markups : List Markup) (codes : List String) : List Replacement :=
  List.zipWith (fun m code => ⟨m.span, code.toList⟩) markups codes

/-- The replacements of markup hold its codes. -/
theorem emittedInTurn_of_emitReplacements {env : Env} {table table' : TemplateTable}
    {markups : List Markup} {replacements : List Replacement}
    (h : (emitReplacements markups).runFrom env table = (.ok replacements, table')) :
    ∃ codes, EmittedInTurn env table markups codes table' ∧
      replacements = replacementsFor markups codes := by
  unfold emitReplacements at h
  induction markups generalizing table replacements with
  | nil =>
    cases h
    exact ⟨[], rfl, rfl⟩
  | cons m ms ih =>
    obtain ⟨first, rest, table₁, hfirst, hrest, rfl⟩ := Emit.runFrom_mapM_cons_eq_ok.1 h
    obtain ⟨code, hcode, rfl⟩ := Emit.runFrom_bind_pure_eq_ok.1 hfirst
    obtain ⟨codes, hcodes, rfl⟩ := ih hrest
    exact ⟨code :: codes, ⟨table₁, hcode, hcodes⟩, rfl⟩

/-- There is one code for each piece of markup, in its place. -/
theorem EmittedInTurn.map_span {env : Env} {table table' : TemplateTable} {markups : List Markup}
    {codes : List String} (h : EmittedInTurn env table markups codes table') :
    (replacementsFor markups codes).map Replacement.span = markups.map Markup.span := by
  fun_induction EmittedInTurn env table markups codes table' with
  | case1 => rfl
  | case2 table m ms code codes table' ih =>
    obtain ⟨table₁, -, hrest⟩ := h
    exact congrArg (m.span :: ·) (ih table₁ hrest)
  | case3 => cases h

/-! ## The source around the markup -/

/-- Spans that follow one another in a text, each with a character in it. -/
structure InSourceOrder (text : List Char) (spans : List Span) : Prop where
  cut : ∀ span ∈ spans, span.start < span.stop ∧ IsCut text span.start ∧ IsCut text span.stop
  order : spans.Pairwise Span.Before

instance (text : List Char) (spans : List Span) : Decidable (InSourceOrder text spans) :=
  decidable_of_iff ((∀ span ∈ spans, span.start < span.stop ∧ IsCut text span.start ∧
    IsCut text span.stop) ∧ spans.Pairwise Span.Before)
    ⟨fun h => ⟨h.1, h.2⟩, fun h => ⟨h.cut, h.order⟩⟩

/-- There is code if there is some apart from errors. -/
theorem exists_of_isSome_join {outcome : Outcome} (h : outcome.toOption.join.isSome = true) :
    ∃ code, outcome = .ok (some code) := by
  rcases outcome with error | _ | code
  · cases h
  · cases h
  · exact ⟨code, rfl⟩

/-- There is a result if there is one apart from errors. -/
theorem exists_of_isSome_toOption {ε α : Type} {result : Except ε α}
    (h : result.toOption.isSome = true) : ∃ a, result = .ok a := by
  cases result with
  | error e => cases h
  | ok a => exact ⟨a, rfl⟩

/-- There is a result that passes a test if there is one apart from errors. -/
theorem exists_of_any_toOption {ε α : Type} {result : Except ε α} {p : α → Bool}
    (h : result.toOption.any p = true) : ∃ a, result = .ok a ∧ p a = true := by
  cases result with
  | error e => cases h
  | ok a => exact ⟨a, rfl, h⟩

/-- A result is the one that it is apart from errors. -/
theorem eq_ok_of_toOption {ε α : Type} {result : Except ε α} {a : α}
    (h : result.toOption = some a) : result = .ok a := by
  cases result with
  | error e => cases h
  | ok b =>
    cases h
    rfl

/-- What holds of every result can be checked by looking for the result. -/
instance decidableForallOk {ε α : Type} (P : α → Prop) [DecidablePred P] :
    (result : Except ε α) → Decidable (∀ a, result = .ok a → P a)
  | .ok a => decidable_of_iff (P a)
    ⟨fun h _ hresult => Except.ok.inj hresult ▸ h, fun h => h a rfl⟩
  | .error _ => isTrue fun _ h => nomatch h

/-- Replacements that follow one another in a text rewrite it from left to right. -/
theorem applyAll_eq_leftToRight {text : List Char} {rs : List Replacement}
    (h : InSourceOrder text (rs.map Replacement.span)) :
    leftToRight 0 text 0 rs = some (Replacement.applyAll 0 text rs) := by
  have hcut : ∀ r ∈ rs, r.span.start < r.span.stop ∧ IsCut text r.span.start ∧
      IsCut text r.span.stop := fun r hr => h.cut r.span (List.mem_map_of_mem hr)
  have horder : rs.Pairwise fun a b => a.span.Before b.span := List.pairwise_map.1 h.order
  have hascending : rs.Pairwise fun a b => a.span.start < b.span.start :=
    horder.imp_of_mem fun {a b} ha _ hab => by
      have hne := (hcut a ha).1
      unfold Span.Before at hab
      omega
  obtain ⟨out, hout⟩ : ∃ out, Rewrites 0 text rs out :=
    Replacement.exists_rewrites_of_pairwise []
      (fun r hr => ⟨Nat.zero_le _, Nat.le_of_lt (hcut r hr).1⟩) (fun r hr => (hcut r hr).2) horder
  have happly : Replacement.applyAll 0 text rs = out := by
    rw [← Replacement.ascending_of_pairwise hascending] at hout
    exact Replacement.applyAll_of_rewrites hout
  rw [happly]
  exact hout.leftToRight_eq [] rfl

/-! ## The header -/

/-- The header of a module: the import of helpers, if there are any, and a line with its declaration
for each template of the table, in the order of their names. -/
def moduleHeader (options : CompileOptions) (table : TemplateTable) (helpers : List String) :
    String :=
  importLine helpers options.runtimeModule
    ++ String.join (table.texts.zipIdx.map fun (text, index) =>
      declaration options.target (TemplateTable.name index) text ++ "\n")

/-- Lines with a line feed between them and one at the end. -/
theorem joinWith_append_lineFeed {lines : List String} (h : lines ≠ []) :
    joinWith "\n" lines ++ "\n" = String.join (lines.map (· ++ "\n")) := by
  fun_induction joinWith "\n" lines with
  | case1 => cases h rfl
  | case2 line =>
    rw [List.map_cons, List.map_nil, String.join_cons, String.join_nil, String.append_empty]
  | case3 line lines hlines ih =>
    rw [List.map_cons, String.join_cons, ← ih hlines, String.append_assoc, String.append_assoc]

/-- A text with lines of which the first is not empty is not empty. -/
theorem joinWith_cons_ne_empty {line : String} (h : line ≠ "") (lines : List String) :
    joinWith "\n" (line :: lines) ≠ "" := by
  cases lines with
  | nil => exact h
  | cons next lines =>
    intro hempty
    rw [joinWith, String.append_assoc] at hempty
    · exact h (String.append_eq_empty_iff.1 hempty).1
    · exact List.cons_ne_nil _ _

/-- A declaration is not empty. -/
theorem declaration_ne_empty (target : Target) (name text : String) :
    declaration target name text ≠ "" := by
  cases target <;> simp [declaration]

/-- Declarations are a line each. -/
theorem declarations_eq (target : Target) (table : TemplateTable) :
    (if (declarations target table).isEmpty then "" else declarations target table ++ "\n") =
      String.join (table.texts.zipIdx.map fun (text, index) =>
        declaration target (TemplateTable.name index) text ++ "\n") := by
  unfold declarations TemplateTable.entries
  rw [List.map_map]
  cases hentries : table.texts.zipIdx with
  | nil => rfl
  | cons entry entries =>
    rw [List.map_cons, if_neg, joinWith_append_lineFeed (List.cons_ne_nil _ _), List.map_cons,
      List.map_map]
    · rfl
    · rw [String.isEmpty_iff]
      exact joinWith_cons_ne_empty (declaration_ne_empty _ _ _) _

/-- A compiled module is its body behind its header. -/
theorem assemble_eq (options : CompileOptions) (table : TemplateTable) (body : String) :
    assemble options table body =
      moduleHeader options table
        (usedHelpers options.target.helpers [declarations options.target table, body]) ++ body := by
  unfold assemble moduleHeader
  dsimp only
  rw [declarations_eq]

/-! ## The code of a module -/

/-- Code of a file is a header and the source, in which code stands in place of the markup and
everything else is kept. There is markup in the source, its codes are emitted from the first to the
last, and the header declares the templates of the table that they leave. -/
theorem compile_rewrites_markup (source fileId code : String) (options : CompileOptions)
    (hcode : compile source fileId options = .ok (some code))
    (horder : ∀ m, parseModule (FileId.dialect fileId) source.toList = .ok m →
      InSourceOrder source.toList (m.markups.map Markup.span)) :
    ∃ m codes table body, parseModule (FileId.dialect fileId) source.toList = .ok m ∧
      m.markups ≠ [] ∧
      EmittedInTurn ⟨source.toList, options⟩ {} m.markups codes table ∧
      leftToRight 0 source.toList 0 (replacementsFor m.markups codes) = some body ∧
      code = moduleHeader options table
        (usedHelpers options.target.helpers
          [declarations options.target table, String.ofList body]) ++ String.ofList body := by
  obtain ⟨m, replacements, table, hparse, hrun, hne, rfl⟩ := exists_of_compile_eq hcode
  obtain ⟨codes, hcodes, rfl⟩ := emittedInTurn_of_emitReplacements hrun
  have hspans : (replacementsFor m.markups codes).map Replacement.span =
      m.markups.map Markup.span := hcodes.map_span
  have hbody := applyAll_eq_leftToRight (hspans ▸ horder m hparse)
  refine ⟨m, codes, table, _, hparse, ?_, hcodes, hbody, assemble_eq _ _ _⟩
  intro hnone
  rw [hnone] at hne
  exact hne rfl

/-- An array of a paragraph, in which a character takes two bytes, and an empty element. -/
theorem compile_rewrites_markup_array :
    ∃ code, compile "[<p>é</p>,<i/>]" "a.js" {} = .ok (some code) ∧
      ∃ m codes table body, parseModule (FileId.dialect "a.js") "[<p>é</p>,<i/>]".toList = .ok m ∧
        m.markups ≠ [] ∧
        EmittedInTurn ⟨"[<p>é</p>,<i/>]".toList, {}⟩ {} m.markups codes table ∧
        leftToRight 0 "[<p>é</p>,<i/>]".toList 0 (replacementsFor m.markups codes) = some body ∧
        code = moduleHeader {} table
          (usedHelpers clientHelpers [declarations .client table, String.ofList body])
            ++ String.ofList body := by
  obtain ⟨code, hcode⟩ : ∃ code, compile "[<p>é</p>,<i/>]" "a.js" {} = .ok (some code) := by
    have hsome : (compile "[<p>é</p>,<i/>]" "a.js" {}).toOption.join.isSome = true := by
      decide +kernel
    exact exists_of_isSome_join hsome
  exact ⟨code, hcode,
    compile_rewrites_markup "[<p>é</p>,<i/>]" "a.js" code {} hcode (by decide +kernel)⟩

end MarkupCompiler
