import MarkupCompiler.Proofs.EmitterInvariant
import MarkupCompiler.Proofs.Rewriting
import MarkupCompiler.Proofs.WellFormed

/-!
# A module that can be read can be compiled

Code can be emitted for every tree whose layout is well formed over the source. Wherever an emitter
takes a text out of the source it finds one, for it only asks for the spans of parts, so that no
position is lost; the HTML of an element is only asked for if the element is static; and a tree is
never deeper than it was said to be. That no emitter fails is an invariant in the sense of
`Emit.Invariant`.

So a file whose tree is well formed only fails to compile if it has none (`wellFormed_compiles`).
-/

namespace MarkupCompiler

open Syntax Grammar Text Layout

/-! ## Emitters that do not fail -/

/-- A computation gives a result on a text, whatever the options and the table of templates. -/
def Emit.Succeeds (text : List Char) (α : Type) (p : Emit α) : Prop :=
  ∀ (options : CompileOptions) (table : TemplateTable),
    ∃ a table', p.runFrom ⟨text, options⟩ table = (.ok a, table')

/-- The text that a span covers is taken out of the source. -/
theorem Emit.runFrom_sourceText {text part : List Char} {span : Span}
    (h : slice? text span = some part) (options : CompileOptions) (table : TemplateTable) :
    (sourceText span).runFrom ⟨text, options⟩ table = (.ok (String.ofList part), table) := by
  have hread : (read : Emit Env).runFrom ⟨text, options⟩ table = (.ok ⟨text, options⟩, table) := rfl
  refine runFrom_bind_eq_ok.2 ⟨⟨text, options⟩, table, hread, ?_⟩
  dsimp only
  rw [h]
  exact runFrom_pure _

namespace Emit.Succeeds

variable {text : List Char}

/-- That a computation gives a result goes over to sequences. -/
theorem invariant (text : List Char) : Emit.Invariant (Succeeds text) where
  pure a options table := ⟨a, table, rfl⟩
  bind hp hf options table := by
    obtain ⟨a, table₁, hrun⟩ := hp options table
    obtain ⟨b, table', hrest⟩ := hf a options table₁
    exact ⟨b, table', runFrom_bind_eq_ok.2 ⟨a, table₁, hrun, hrest⟩⟩
  read options table := ⟨⟨text, options⟩, table, rfl⟩
  intern html options table := ⟨_, _, rfl⟩

/-- The text that a span covers can be taken out of the source. -/
theorem sourceText {span : Span} {part : List Char} (h : slice? text span = some part) :
    Succeeds text String (sourceText span) :=
  fun options table => ⟨_, table, runFrom_sourceText h options table⟩

/-- A token can be taken out of the source, unless it is empty. -/
theorem tokenText {span : Span} {part : List Char} (h : slice? text span = some part)
    (hlt : span.start < span.stop) : Succeeds text String (tokenText span) := by
  have hne : ¬(span.start == span.stop) = true := by
    rw [beq_iff_eq]
    exact Nat.ne_of_lt hlt
  unfold MarkupCompiler.tokenText
  rw [if_neg hne]
  exact sourceText h

end Emit.Succeeds

/-- The text of a part of a well-formed layout can be taken out of the source. -/
theorem Layout.Sound.exists_slice {text : List Char} {x : Layout} (h : x.Sound text) :
    ∃ part, slice? text x.span = some part :=
  Text.exists_slice h.order h.cut.1 h.cut.2

/-- Where a layout is well formed, no emitter fails for want of a text of the source. -/
theorem Layout.WellFormed.keepSource {text : List Char} {x : Layout} (h : x.WellFormed text) :
    Emitters.KeepSource (Emit.Succeeds text) x where
  toInvariant := Emit.Succeeds.invariant text
  source y hy := by
    obtain ⟨part, hpart⟩ := (h y hy).exists_slice
    exact Emit.Succeeds.sourceText hpart
  token y hy hkind := by
    obtain ⟨part, hpart⟩ := (h y hy).exists_slice
    exact Emit.Succeeds.tokenText hpart ((h y hy).nonempty hkind)
  splice y hy stretch hof hmarkups := by
    have hinvariant := Emit.Succeeds.invariant text
    obtain ⟨part, hpart, -⟩ := (hof.spliceable (h.of_mem hy)).fit
    have hsource : Emit.Succeeds text String (sourceText stretch.span) :=
      Emit.Succeeds.sourceText hpart
    have hreplacements : Emit.Succeeds text (List Replacement)
        (stretch.markups.mapM fun m => return ⟨m.span, (← emitters.markup m).toList⟩) :=
      hinvariant.mapM fun m hm => hinvariant.bind (hmarkups m hm) fun _ => hinvariant.pure _
    exact hinvariant.bind hsource fun _ => hinvariant.bind hreplacements fun _ => hinvariant.pure _

/-- Where a layout is well formed, code can be emitted for markup in it, and it comes as a
replacement of that markup. -/
theorem Layout.WellFormed.emitReplacements {text : List Char} {x : Layout} (h : x.WellFormed text)
    {markups : List Markup} (hmarkups : ∀ m ∈ markups, m.layout ∈ x.nodes)
    (options : CompileOptions) (table : TemplateTable) :
    ∃ replacements table',
      (emitReplacements markups).runFrom ⟨text, options⟩ table = (.ok replacements, table') ∧
      replacements.map Replacement.span = markups.map Markup.span := by
  have hinvariant := Emit.Succeeds.invariant text
  have hsucceeds : Emit.Succeeds text (List Replacement)
      (MarkupCompiler.emitReplacements markups) :=
    hinvariant.mapM fun m hm =>
      hinvariant.bind ((h.keepSource.emit (hmarkups m hm)).markup m rfl) fun _ => hinvariant.pure _
  obtain ⟨replacements, table', hrun⟩ := hsucceeds options table
  obtain ⟨codes, hcodes, rfl⟩ := emittedInTurn_of_emitReplacements hrun
  exact ⟨_, table', hrun, hcodes.map_span⟩

/-- The outermost markup of a module is in its layout. -/
theorem Syntax.Module.layout_mem_nodes (text : List Char) (m : Module) :
    ∀ markup ∈ m.markups, markup.layout ∈ (m.layout text).nodes := by
  intro markup hmarkup
  have houtermost : markup.layout ∈ (m.layout text).outermost isMarkup := by
    rw [m.outermost_layout text]
    exact List.mem_map_of_mem hmarkup
  exact (mem_of_mem_outermost houtermost).1

/-- Code is spliced into a stretch of a well-formed part as it is: the text of the stretch is there,
there is a replacement for each piece of its markup, and all of them fit. -/
theorem Layout.WellFormed.splice {text : List Char} {x : Layout} (h : x.WellFormed text)
    {stretch : Stretch} (hof : stretch.Of x) (options : CompileOptions) (table : TemplateTable) :
    ∃ part replacements out table', slice? text stretch.span = some part ∧
      replacements.map Replacement.span = stretch.markups.map Markup.span ∧
      Replacement.putAll? stretch.span.start part replacements = some out ∧
      (emitters.splice stretch).runFrom ⟨text, options⟩ table =
        (.ok (String.ofList out), table') := by
  obtain ⟨part, hpart, hfit⟩ := (hof.spliceable h).fit
  obtain ⟨replacements, table', hrun, hspans⟩ := h.emitReplacements
    (fun m hm => (mem_of_mem_outermost (hof.layout_mem_outermost hm)).1) options table
  refine ⟨part, replacements, _, table', hpart, hspans, hfit replacements hspans, ?_⟩
  have hsource : (sourceText stretch.span).runFrom ⟨text, options⟩ table =
      (.ok (String.ofList part), table) := Emit.runFrom_sourceText hpart options table
  refine Emit.runFrom_bind_eq_ok.2 ⟨_, table, hsource, Emit.runFrom_bind_eq_ok.2 ?_⟩
  refine ⟨replacements, table', hrun, ?_⟩
  rw [String.toList_ofList]
  rfl

/-! ## The code of a module -/

/-- Code generation for a module goes through. There is code for all its markup, and it can be put
in its place; slots have the numbers of parts; and in each stretch of the source that keeps its text
the markup is exactly what is to be replaced, and code for it can be put in its place. -/
structure Syntax.Module.Compiles (text : List Char) (options : CompileOptions) (m : Module) :
    Prop where
  emitted : ∀ table : TemplateTable, ∃ replacements out table',
    (emitReplacements m.markups).runFrom ⟨text, options⟩ table = (.ok replacements, table') ∧
      replacements.map Replacement.span = m.markups.map Markup.span ∧
      Replacement.putAll? 0 text replacements = some out
  whole : Spliceable text (m.layout text) ⟨0, byteLength text⟩ m.markups
  slots : ∀ (e : Element) (next : Nat), (e.skeleton next).outline.filterMap Outline.slot? =
    List.range (e.skeleton next).parts.length
  spliced : ∀ x ∈ (m.layout text).nodes, ∀ stretch : Stretch, stretch.Of x →
    ∀ table : TemplateTable, ∃ part replacements out table', slice? text stretch.span = some part ∧
      replacements.map Replacement.span = stretch.markups.map Markup.span ∧
      Replacement.putAll? stretch.span.start part replacements = some out ∧
      (emitters.splice stretch).runFrom ⟨text, options⟩ table = (.ok (String.ofList out), table')
  stretches : ∀ x ∈ (m.layout text).nodes, ∀ stretch : Stretch, stretch.Of x →
    Spliceable text x stretch.span stretch.markups
  /-- If parts are apart, the markup of a stretch is all markup of the module in the stretch. -/
  separated : (m.layout text).Separated → ∀ x ∈ (m.layout text).nodes, ∀ stretch : Stretch,
    stretch.Of x → Spliceable text (m.layout text) stretch.span stretch.markups

/-- Code generation goes through for a module whose layout is well formed. -/
theorem Layout.WellFormed.compiles {text : List Char} {m : Module}
    (h : (m.layout text).WellFormed text) (options : CompileOptions) : m.Compiles text options where
  emitted table := by
    obtain ⟨replacements, table', hrun, hspans⟩ :=
      h.emitReplacements (m.layout_mem_nodes text) options table
    obtain ⟨part, hpart, hfit⟩ := (h.spliceable_whole (m.outermost_layout text).symm).fit
    obtain rfl : text = part := Option.some.inj ((slice?_whole text).symm.trans hpart)
    exact ⟨replacements, _, table', hrun, hspans, hfit replacements hspans⟩
  whole := h.spliceable_whole (m.outermost_layout text).symm
  slots e next := (e.numbered_skeleton next).slots
  spliced x hx stretch hof := (h.of_mem hx).splice hof options
  stretches x hx stretch hof := hof.spliceable (h.of_mem hx)
  separated hseparated x hx stretch hof := by
    have hwf := h.of_mem hx
    exact (hof.spliceable hwf).of_mem h hseparated hx (hof.inside hwf)

/-- Diagnostics of a source are an error of its syntax. -/
theorem CompileError.code_ofDiagnostics (fileId : String) (source : List Char)
    (complaints : List Diagnostic) :
    (CompileError.ofDiagnostics fileId source complaints).code = .parse := by
  cases complaints with
  | nil => rfl
  | cons first rest => rfl

/-- A file whose tree is well formed compiles, and a file all of whose trees are well formed only
fails to compile because it has none. -/
theorem wellFormed_compiles (source fileId : String) (options : CompileOptions)
    (hwf : ∀ m, parseModule (FileId.dialect fileId) source.toList = .ok m →
      (m.layout source.toList).WellFormed source.toList) :
    (∀ m, parseModule (FileId.dialect fileId) source.toList = .ok m →
      m.Compiles source.toList options ∧ ∃ code?, compile source fileId options = .ok code?) ∧
      ∀ error, compile source fileId options = .error error → error.code = .parse := by
  have hcompiles : ∀ m, parseModule (FileId.dialect fileId) source.toList = .ok m →
      ∃ code?, compile source fileId options = .ok code? := by
    intro m hparse
    obtain ⟨replacements, table, hrun, -⟩ :=
      (hwf m hparse).emitReplacements (m.layout_mem_nodes source.toList) options {}
    cases hmay : containsMarkup source.toList with
    | false => exact ⟨none, compile_of_not_containsMarkup fileId options hmay⟩
    | true =>
      rw [compile_of_containsMarkup fileId options hmay, hparse]
      dsimp only
      rw [hrun]
      exact ⟨_, rfl⟩
  refine ⟨fun m hparse => ⟨(hwf m hparse).compiles options, hcompiles m hparse⟩, ?_⟩
  intro error herror
  -- Emitting does not fail, so what failed is the reading.
  cases hparse : parseModule (FileId.dialect fileId) source.toList with
  | ok m =>
    obtain ⟨code?, hcode⟩ := hcompiles m hparse
    rw [hcode] at herror
    cases herror
  | error complaints =>
    cases hmay : containsMarkup source.toList with
    | false =>
      rw [compile_of_not_containsMarkup fileId options hmay] at herror
      cases herror
    | true =>
      rw [compile_of_containsMarkup fileId options hmay, hparse] at herror
      obtain rfl := Except.error.inj herror
      exact CompileError.code_ofDiagnostics fileId source.toList complaints

/-- An element with a list of items, for which the parameters of the callback are needed, and with
an assignment of a class to a member that markup gives the name of. -/
def sampleSource : String :=
  "<u v=\x7bx[<p>é</p>]=class\x7by=<q/>\x7d\x7d>\x7bl.map((a=<i/>)=><b>\x7ba\x7d</b>)\x7d</u>"

/-- The sample source is well formed, and compiles. -/
theorem wellFormed_compiles_sample :
    ∃ m, parseModule (FileId.dialect "a.js") sampleSource.toList = .ok m ∧
      (m.layout sampleSource.toList).Separated ∧ m.Compiles sampleSource.toList {} ∧
      ∃ code?, compile sampleSource "a.js" {} = .ok code? := by
  obtain ⟨m, hparse⟩ : ∃ m, parseModule (FileId.dialect "a.js") sampleSource.toList = .ok m :=
    exists_of_isSome_toOption (by decide +kernel)
  have hseparated : ∀ m, parseModule (FileId.dialect "a.js") sampleSource.toList = .ok m →
      (m.layout sampleSource.toList).Separated := by decide +kernel
  have hall := wellFormed_compiles sampleSource "a.js" {} (by decide +kernel)
  exact ⟨m, hparse, hseparated m hparse, hall.1 m hparse⟩

end MarkupCompiler
