import MarkupCompiler.Proofs.Agreement
import MarkupCompiler.Proofs.Rewriting
import MarkupCompiler.Proofs.StatementSpec

/-!
# Code that runs into the word before it

Code is put in place of markup without regard to what stands before the markup. The code of some
markup begins with the name of a helper, and that of the rest with a bracket
(`Markup.leadingWord`). So if a word of the source ends where markup begins, as in `return<p/>`, the
code of that markup either leaves the word alone or makes one name of the word and the helper. Which
of the two happens is said here for every place where code is spliced into the source, for a module
as a whole and for the stretches of it that keep their text (`spliced_code_and_word_before`).
-/

namespace MarkupCompiler

open Syntax Grammar Text

/-! ## Words -/

/-- The word that a text ends in. It is empty if no name can go on after the text. -/
def wordAtEnd (text : List Char) : List Char := (text.reverse.takeWhile isNamePart).reverse

/-- What comes after a text goes on with a name that the text ends in: the last character of the
text and the first one after it are both characters of names. -/
def RunsInto (before after : List Char) : Prop :=
  ∃ c d, before.getLast? = some c ∧ after.head? = some d ∧ isNamePart c = true ∧ isNamePart d = true

/-- A text begins with a word that does not go on. -/
def BeginsWith (word text : List Char) : Prop :=
  ∃ c rest, text = word ++ c :: rest ∧ isNamePart c = false ∧ c ≠ '\\'

variable {text : List Char} {env : Env} {table table' : TemplateTable}

/-- The word at the end of a text is made of characters of names. -/
theorem isNamePart_of_mem_wordAtEnd {c : Char} (h : c ∈ wordAtEnd text) : isNamePart c = true :=
  List.all_eq_true.1 List.all_takeWhile c (List.mem_reverse.1 h)

/-- A text ends in a word if its last character is one of names. -/
theorem wordAtEnd_ne_nil_iff :
    wordAtEnd text ≠ [] ↔ ∃ c, text.getLast? = some c ∧ isNamePart c = true := by
  rw [← List.head?_reverse]
  unfold wordAtEnd
  cases text.reverse with
  | nil => simp
  | cons c rest =>
    rw [List.takeWhile_cons, List.head?_cons]
    cases hc : isNamePart c with
    | true => simp [hc]
    | false => simp [hc]

/-- What begins with a word runs into a text exactly if the text ends in a word and the word that
begins is not empty. -/
theorem BeginsWith.runsInto_iff {word before after : List Char} (h : BeginsWith word after)
    (hword : ∀ c ∈ word, isNamePart c = true) :
    RunsInto before after ↔ wordAtEnd before ≠ [] ∧ word ≠ [] := by
  obtain ⟨c, rest, rfl, hc, -⟩ := h
  rw [wordAtEnd_ne_nil_iff]
  constructor
  · rintro ⟨last, first, hlast, hfirst, hlastName, hfirstName⟩
    refine ⟨⟨last, hlast, hlastName⟩, ?_⟩
    rintro rfl
    -- Without a word the first character is the one that ends it.
    cases hfirst
    rw [hc] at hfirstName
    cases hfirstName
  · rintro ⟨⟨last, hlast, hlastName⟩, hne⟩
    cases word with
    | nil => exact absurd rfl hne
    | cons first word =>
      exact ⟨last, first, hlast, rfl, hlastName, hword first (.head _)⟩

/-- After a text, what begins with a word is read as one name with the word that the text ends
in. -/
theorem BeginsWith.scanName_eq {word before after : List Char} (h : BeginsWith word after)
    (hword : ∀ c ∈ word, isNamePart c = true) (rest : List Char) :
    scanName 0 (wordAtEnd before ++ after ++ rest) =
      ⟨wordAtEnd before ++ word, (wordAtEnd before ++ word).length, false, true⟩ := by
  obtain ⟨c, tail, rfl, hc, hescape⟩ := h
  have hname : ∀ d ∈ wordAtEnd before ++ word, isNamePart d = true := by
    intro d hd
    rcases List.mem_append.1 hd with hd | hd
    · exact isNamePart_of_mem_wordAtEnd hd
    · exact hword d hd
  have hassoc : wordAtEnd before ++ (word ++ c :: tail) ++ rest =
      (wordAtEnd before ++ word) ++ c :: (tail ++ rest) := by
    simp only [List.append_assoc, List.cons_append]
  rw [hassoc, scanName_append hname (endsName_cons hc hescape _)]

/-! ## The first word of code -/

/-- The helper that the code of markup begins with a call of. It is empty for markup whose code
begins with a bracket: a fragment, and an element of the client that has parts. -/
def Syntax.Markup.leadingWord (options : CompileOptions) : Markup → String
  | .element e =>
    if e.isComponent then "_$unwrapComponent"
    else if options.isServer then "_$ssr"
    else if e.isStatic then "_$clone"
    else ""
  | .fragment _ _ => ""

/-- The helper is a word. -/
theorem Syntax.Markup.isNamePart_of_mem_leadingWord (options : CompileOptions) (m : Markup) :
    ∀ c ∈ (m.leadingWord options).toList, isNamePart c = true := by
  have hcomponent : ∀ c ∈ "_$unwrapComponent".toList, isNamePart c = true :=
    List.all_eq_true.mp (by decide)
  have hserver : ∀ c ∈ "_$ssr".toList, isNamePart c = true :=
    List.all_eq_true.mp (by decide)
  have hstatic : ∀ c ∈ "_$clone".toList, isNamePart c = true :=
    List.all_eq_true.mp (by decide)
  have hnone : ∀ c ∈ "".toList, isNamePart c = true :=
    List.all_eq_true.mp (by decide)
  unfold Markup.leadingWord
  split
  · split
    · exact hcomponent
    · split
      · exact hserver
      · split
        · exact hstatic
        · exact hnone
  · exact hnone

/-- What begins with a word does so with more after it. -/
theorem BeginsWith.append {word : List Char} {text : String} (h : BeginsWith word text.toList)
    (more : String) : BeginsWith word (text ++ more).toList := by
  obtain ⟨c, rest, htext, hc⟩ := h
  refine ⟨c, rest ++ more.toList, ?_, hc⟩
  rw [String.toList_append, htext, List.append_assoc, List.cons_append]

section

variable {env : Env} {table table' : TemplateTable} {code : String}

variable {e : Element}

/-- The code of a component begins with the helper that unwraps it. -/
theorem component_beginsWith (h : (emitters.component e).runFrom env table = (.ok code, table')) :
    BeginsWith "_$unwrapComponent".toList code.toList := by
  obtain ⟨attributes, table₁, -, h⟩ := Emit.runFrom_bind_eq_ok.1 h
  obtain ⟨children, -, rfl⟩ := Emit.runFrom_bind_pure_eq_ok.1 h
  have hcall : BeginsWith "_$unwrapComponent".toList "_$unwrapComponent(".toList :=
    ⟨'(', [], by decide, by decide, by decide⟩
  exact (((hcall.append _).append _).append _).append _

/-- The code of an element on the server begins with the helper that renders it. -/
theorem serverElement_beginsWith
    (h : (emitters.serverElement e).runFrom env table = (.ok code, table')) :
    BeginsWith "_$ssr".toList code.toList := by
  obtain ⟨values, table₁, -, h⟩ := Emit.runFrom_bind_eq_ok.1 h
  obtain ⟨template, -, rfl⟩ := Emit.runFrom_bind_pure_eq_ok.1 h
  have hcall : BeginsWith "_$ssr".toList "_$ssr(".toList :=
    ⟨'(', [], by decide, by decide, by decide⟩
  exact (hcall.append _).append _

/-- The code of an element begins with its helper. -/
theorem element_beginsWith (h : (emitters.element e).runFrom env table = (.ok code, table')) :
    BeginsWith ((Markup.element e).leadingWord env.options).toList code.toList := by
  unfold Emitters.element at h
  unfold Markup.leadingWord
  dsimp only
  split at h
  · rename_i hcomponent
    rw [if_pos hcomponent]
    exact component_beginsWith h
  · rename_i hcomponent
    rw [if_neg hcomponent]
    obtain ⟨env', _, henv, h⟩ := Emit.runFrom_bind_eq_ok.1 h
    cases henv
    split at h
    · rename_i hserver
      rw [if_pos hserver]
      exact serverElement_beginsWith h
    · rename_i hserver
      rw [if_neg hserver]
      split at h
      · rename_i hstatic
        rw [if_pos hstatic]
        obtain ⟨template, -, rfl⟩ := Emit.runFrom_bind_pure_eq_ok.1 h
        have hcall : BeginsWith "_$clone".toList "_$clone(".toList :=
          ⟨'(', [], by decide, by decide, by decide⟩
        exact (hcall.append _).append _
      · rename_i hstatic
        rw [if_neg hstatic]
        obtain ⟨block, -, rfl⟩ := Emit.runFrom_bind_pure_eq_ok.1 h
        have hfunction : BeginsWith "".toList "(() => \x7b\n".toList :=
          ⟨'(', "() => \x7b\n".toList, by decide, by decide, by decide⟩
        exact (hfunction.append _).append _

/-- The code of markup begins with its helper. -/
theorem emitMarkup_beginsWith {m : Markup}
    (h : (emitMarkup m).runFrom env table = (.ok code, table')) :
    BeginsWith (m.leadingWord env.options).toList code.toList := by
  rw [emitMarkup_eq] at h
  cases m with
  | element e => exact element_beginsWith h
  | fragment span children =>
    obtain ⟨values, -, rfl⟩ := Emit.runFrom_bind_pure_eq_ok.1 h
    have harray : BeginsWith "".toList "[".toList := ⟨'[', [], by decide, by decide, by decide⟩
    exact (harray.append _).append _

end

/-! ## Places of splicing -/

/-- How code in place of markup meets the word that the source before the markup ends in. -/
structure MeetsWord (env : Env) (m : Markup) (r : Replacement) : Prop where
  /-- The code takes the place of the markup. -/
  span : r.span = m.span
  /-- It runs into the source before the markup exactly if that ends in a word and the code begins
  with a helper. -/
  runsInto_iff : ∀ before after, cutAt? m.span.start env.source = some (before, after) →
    (RunsInto before r.text ↔ wordAtEnd before ≠ [] ∧ m.leadingWord env.options ≠ "")
  /-- Whatever comes next, the word and the helper are read as one name. -/
  scanName_eq : ∀ before after, cutAt? m.span.start env.source = some (before, after) →
    ∀ rest, scanName 0 (wordAtEnd before ++ r.text ++ rest) =
      ⟨wordAtEnd before ++ (m.leadingWord env.options).toList,
        (wordAtEnd before ++ (m.leadingWord env.options).toList).length, false, true⟩

/-- Code of markup meets the word before the markup. -/
theorem meetsWord_of_emitMarkup {m : Markup} {code : String}
    (h : (emitMarkup m).runFrom env table = (.ok code, table')) :
    MeetsWord env m ⟨m.span, code.toList⟩ := by
  have hbegins := emitMarkup_beginsWith h
  have hword := m.isNamePart_of_mem_leadingWord env.options
  refine ⟨rfl, fun before _ _ => ?_, fun before _ _ rest => hbegins.scanName_eq hword rest⟩
  rw [hbegins.runsInto_iff hword, Ne, Ne, Ne, String.toList_eq_nil_iff]

/-- All codes of pieces of markup meet the words before the pieces. -/
theorem forall₂_meetsWord {markups : List Markup} {rs : List Replacement}
    (h : (emitReplacements markups).runFrom env table = (.ok rs, table')) :
    List.Forall₂ (MeetsWord env) markups rs := by
  unfold emitReplacements at h
  induction markups generalizing table rs with
  | nil =>
    cases h
    exact .nil
  | cons m markups ih =>
    obtain ⟨r, rs, table₁, hfirst, hrest, rfl⟩ := Emit.runFrom_mapM_cons_eq_ok.1 h
    obtain ⟨code, hcode, rfl⟩ := Emit.runFrom_bind_pure_eq_ok.1 hfirst
    exact .cons (meetsWord_of_emitMarkup hcode) (ih hrest)

/-- Text that is taken from the source is a slice of it. -/
theorem exists_slice_of_sourceText {span : Span} {text : String}
    (h : (sourceText span).runFrom env table = (.ok text, table')) :
    ∃ part, slice? env.source span = some part ∧ text = String.ofList part := by
  obtain ⟨env', _, henv, hslice⟩ := Emit.runFrom_bind_eq_ok.1 h
  cases henv
  split at hslice
  · rename_i part hpart
    cases hslice
    exact ⟨part, hpart, rfl⟩
  · cases hslice

/-- A stretch of the source that keeps its text is the source with replacements of its markup. -/
theorem exists_of_splice {stretch : Stretch} {text : String}
    (h : (emitters.splice stretch).runFrom env table = (.ok text, table')) :
    ∃ part rs table₁, slice? env.source stretch.span = some part ∧
      (emitReplacements stretch.markups).runFrom env table₁ = (.ok rs, table') ∧
      text = String.ofList (Replacement.applyAll stretch.span.start part rs) := by
  obtain ⟨written, table₁, hwritten, h⟩ := Emit.runFrom_bind_eq_ok.1 h
  obtain ⟨rs, hrs, rfl⟩ := Emit.runFrom_bind_pure_eq_ok.1 h
  obtain ⟨part, hpart, rfl⟩ := exists_slice_of_sourceText hwritten
  refine ⟨part, rs, table₁, hpart, hrs, ?_⟩
  rw [String.toList_ofList]

/-- Markup of a module, at any depth, stands at an angle bracket of its source. -/
theorem exists_cutAt?_of_layout {dialect : Dialect} {m : Module}
    (hparse : parseModule dialect text = .ok m) {piece : Markup}
    (hpiece : piece.layout ∈ (m.layout text).nodes) :
    ∃ before after, cutAt? piece.span.start text = some (before, '<' :: after) := by
  obtain ⟨before, c, rest, rfl, hstart, -⟩ :=
    opensTag_of_isMarkup hparse _ hpiece piece.isMarkup_layout
  refine ⟨before, c :: rest, ?_⟩
  rw [← piece.span_layout, ← hstart]
  exact cutAt?_append before ('<' :: c :: rest)

/-- Wherever code is spliced into the source, it runs into the word before it exactly if there is
one and the code begins with a helper. The places are those of the outermost markup of a module that
compiles, and those in any stretch of its source that keeps its text. All markup of the module
stands at an angle bracket of the source, so that there is such a text before it. -/
theorem spliced_code_and_word_before (source fileId code : String) (options : CompileOptions)
    (h : compile source fileId options = .ok (some code)) :
    (∃ m rs table, parseModule (FileId.dialect fileId) source.toList = .ok m ∧
      code = assemble options table
        (String.ofList (Replacement.applyAll 0 source.toList rs)) ∧
      List.Forall₂ (MeetsWord ⟨source.toList, options⟩) m.markups rs ∧
      ∀ piece : Markup, piece.layout ∈ (m.layout source.toList).nodes →
        ∃ before after, cutAt? piece.span.start source.toList = some (before, '<' :: after)) ∧
    ∀ stretch table text table',
      (emitters.splice stretch).runFrom ⟨source.toList, options⟩ table = (.ok text, table') →
      ∃ part rs, slice? source.toList stretch.span = some part ∧
        text = String.ofList (Replacement.applyAll stretch.span.start part rs) ∧
        List.Forall₂ (MeetsWord ⟨source.toList, options⟩) stretch.markups rs := by
  constructor
  · obtain ⟨m, rs, table, hparse, hrun, -, hcode⟩ := exists_of_compile_eq h
    exact ⟨m, rs, table, hparse, hcode, forall₂_meetsWord hrun,
      fun piece hpiece => exists_cutAt?_of_layout hparse hpiece⟩
  · intro stretch table text table' hsplice
    obtain ⟨part, rs, table₁, hpart, hrun, htext⟩ := exists_of_splice hsplice
    exact ⟨part, rs, hpart, htext, forall₂_meetsWord hrun⟩

/-- A function that returns a paragraph, without a blank before it. -/
def returnSource : String := "export default () => \x7b return<p/> \x7d"

/-- The code of the function, which returns nothing. -/
def returnCode : String :=
  "import \x7b template as _$template, clone as _$clone \x7d from \"sprig/dom\";\n" ++
  "const _tmpl$0 = _$template(\"<p></p>\");\nexport default () => \x7b return_$clone(_tmpl$0) \x7d"

/-- There is code of the function. -/
theorem compile_returnSource : compile returnSource "a.jsx" {} = .ok (some returnCode) :=
  eq_ok_of_toOption (by decide +kernel)

/-- The code of the paragraph meets the word before it. -/
theorem spliced_code_and_word_before_return :
    compile returnSource "a.jsx" {} = .ok (some returnCode) ∧
    ∃ m rs, parseModule (FileId.dialect "a.jsx") returnSource.toList = .ok m ∧
      List.Forall₂ (MeetsWord ⟨returnSource.toList, {}⟩) m.markups rs := by
  obtain ⟨⟨m, rs, -, hparse, -, hmeets, -⟩, -⟩ :=
    spliced_code_and_word_before returnSource "a.jsx" returnCode {} compile_returnSource
  exact ⟨compile_returnSource, m, rs, hparse, hmeets⟩

/-- The code of the paragraph runs into the word `return` before it. -/
theorem return_runs_into_code :
    compile returnSource "a.jsx" {} = .ok (some returnCode) ∧
    ∃ m piece before after code table,
      parseModule (FileId.dialect "a.jsx") returnSource.toList = .ok m ∧ m.markups = [piece] ∧
      cutAt? piece.span.start returnSource.toList = some (before, after) ∧
      (emitMarkup piece).runFrom ⟨returnSource.toList, {}⟩ {} = (.ok code, table) ∧
      wordAtEnd before = "return".toList ∧ RunsInto before code.toList := by
  obtain ⟨m, hparse⟩ : ∃ m, parseModule (FileId.dialect "a.jsx") returnSource.toList = .ok m :=
    exists_of_isSome_toOption (by decide +kernel)
  have hspans : ∀ m, parseModule (FileId.dialect "a.jsx") returnSource.toList = .ok m →
      m.markups.map Markup.span = [⟨29, 33⟩] := by decide +kernel
  have hcodes : ∀ m, parseModule (FileId.dialect "a.jsx") returnSource.toList = .ok m →
      ∀ piece ∈ m.markups, ((emitMarkup piece).runFrom ⟨returnSource.toList, {}⟩ {}).1.toOption =
        some "_$clone(_tmpl$0)" := by decide +kernel
  obtain ⟨piece, hpiece, hspan⟩ := List.map_eq_singleton_iff.1 (hspans m hparse)
  have hcode := hcodes m hparse piece (hpiece ▸ List.mem_singleton_self piece)
  refine ⟨compile_returnSource, m, piece, "export default () => \x7b return".toList,
    "<p/> \x7d".toList, "_$clone(_tmpl$0)", _, hparse, hpiece, ?_,
    Prod.ext (eq_ok_of_toOption hcode) rfl, by decide, 'n', '_', ?_⟩
  · rw [hspan]
    decide
  · decide

end MarkupCompiler
