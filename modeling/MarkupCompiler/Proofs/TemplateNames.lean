import MarkupCompiler.Proofs.EmitterInvariant
import MarkupCompiler.Proofs.Rewriting
import MarkupCompiler.Proofs.TemplateTables

/-!
# The names of templates

An emitter has no other access to the table than to ask for the names of texts. What it does is a
`Naming`: it asks for names, one after the other, and what it makes and what it asks for next
depends on the names that it was given. That a computation is one is an invariant in the sense of
`Emit.Invariant`, so it holds of all emitters and on every tree. A naming only adds to the table,
and what it makes is what it would have made of the names in the table at the end.
-/

namespace MarkupCompiler

open Syntax Grammar Text Layout

/-! ## Namings -/

/-- A computation whose only access to a table of templates is to ask for the names of texts. -/
inductive Naming (α : Type) where
  | done (result : Except EmitError α)
  | intern (text : String) (next : String → Naming α)

namespace Naming

variable {α β : Type}

/-- Runs a naming on a table. -/
def run : Naming α → TemplateTable → Except EmitError α × TemplateTable
  | done result, table => (result, table)
  | intern text next, table => (next (table.intern text).1).run (table.intern text).2

/-- What a naming makes of names that are settled. -/
def fill (nameOf : String → String) : Naming α → Except EmitError α
  | done result => result
  | intern text next => (next (nameOf text)).fill nameOf

/-- The texts that a naming asks names for, if the names are settled. -/
def texts (nameOf : String → String) : Naming α → List String
  | done _ => []
  | intern text next => text :: (next (nameOf text)).texts nameOf

/-- One naming after another, unless the first fails. -/
def andThen (f : α → Naming β) : Naming α → Naming β
  | done (.ok a) => f a
  | done (.error e) => done (.error e)
  | intern text next => intern text fun id => (next id).andThen f

/-- A naming goes on from the table that the one before it has left. -/
theorem run_andThen (q : Naming α) (f : α → Naming β) (table : TemplateTable) :
    (q.andThen f).run table =
      match q.run table with
      | (.ok a, table₁) => (f a).run table₁
      | (.error e, table₁) => (.error e, table₁) := by
  induction q generalizing table with
  | done result => cases result <;> rfl
  | intern text next ih => exact ih _ _

/-- A naming continues the table and keeps it consistent, whether it fails or not. -/
theorem run_spec (q : Naming α) {table : TemplateTable} (h : table.Consistent) :
    (q.run table).2.Consistent ∧ (q.run table).2.Continues table := by
  induction q generalizing table with
  | done result => exact ⟨h, .refl table⟩
  | intern text next ih =>
    obtain ⟨-, -, hcontinues, hconsistent⟩ := table.intern_spec text
    obtain ⟨hlater, hgrown⟩ := ih _ (hconsistent h)
    exact ⟨hlater, hgrown.trans hcontinues⟩

/-- What a naming makes of a table is what it makes of the names in any later one, and all texts
that it asks names for are in the later one. -/
theorem fill_eq (q : Naming α) {table later : TemplateTable}
    (h : table.Consistent) (hlater : later.Continues (q.run table).2) :
    q.fill later.nameOf = (q.run table).1 ∧
      ∀ text ∈ q.texts later.nameOf, text ∈ later.texts := by
  induction q generalizing table with
  | done result => exact ⟨rfl, fun _ htext => nomatch htext⟩
  | intern text next ih =>
    obtain ⟨hmem, hname, -, hconsistent⟩ := table.intern_spec text
    have hgrown := hlater.trans ((next _).run_spec (hconsistent h)).2
    have hsame : later.nameOf text = (table.intern text).1 :=
      (hgrown.nameOf_eq hmem).trans hname.symm
    obtain ⟨hfill, htexts⟩ := ih _ (hconsistent h) hlater
    rw [fill, texts, hsame]
    refine ⟨hfill, List.forall_mem_cons.2 ⟨?_, htexts⟩⟩
    exact (TemplateTable.continues_iff.1 hgrown).subset hmem

end Naming

/-! ## Emitters are namings -/

/-- A computation that emits code is a naming, whatever the source and the options. -/
def Emit.IsNaming (α : Type) (p : Emit α) : Prop :=
  ∀ env : Env, ∃ q : Naming α, ∀ table : TemplateTable, p.runFrom env table = q.run table

namespace Emit.IsNaming

/-- Computations that do the same on the same source and with the same options, and leave the table
alone, are namings. -/
theorem of_result {α : Type} {p : Emit α} (result : Env → Except EmitError α)
    (h : ∀ env table, p.runFrom env table = (result env, table)) : IsNaming α p :=
  fun env => ⟨.done (result env), h env⟩

/-- That a computation is a naming goes over to sequences. -/
theorem invariant : Emit.Invariant IsNaming where
  pure a := of_result (fun _ => .ok a) fun _ _ => rfl
  bind {α β p f} hp hf env := by
    obtain ⟨q, hq⟩ := hp env
    choose next hnext using fun a => hf a env
    refine ⟨q.andThen next, fun table => ?_⟩
    rw [runFrom_bind, hq, Naming.run_andThen]
    rcases q.run table with ⟨e | a, table₁⟩
    · rfl
    · exact hnext a table₁
  read := of_result (fun env => .ok env) fun _ _ => rfl
  intern text env := ⟨.intern text fun id => .done (.ok id), fun _ => rfl⟩

/-- The text of a span is taken out of the source without a look at the table. -/
theorem sourceText (span : Span) : IsNaming String (sourceText span) := by
  refine invariant.bind invariant.read fun env => ?_
  cases slice? env.source span with
  | none => exact of_result (fun _ => .error (.positionLost span)) fun _ _ => rfl
  | some text => exact invariant.pure _

/-- A token is taken out of the source without a look at the table. -/
theorem tokenText (span : Span) : IsNaming String (tokenText span) := by
  unfold MarkupCompiler.tokenText
  split
  · exact of_result (fun _ => .error (.positionLost span)) fun _ _ => rfl
  · exact sourceText span

/-- Markup is spliced into a stretch by a naming, if its code is made by one. -/
theorem splice {g : Emitters} {stretch : Stretch}
    (h : ∀ m ∈ stretch.markups, IsNaming String (g.markup m)) :
    IsNaming String (g.splice stretch) := by
  refine invariant.bind (sourceText stretch.span) fun _ => invariant.bind ?_ fun _ =>
    invariant.pure _
  exact invariant.mapM fun m hm => invariant.bind (h m hm) fun _ => invariant.pure _

/-- What emitters do with the source of a tree are namings. -/
theorem keepSource (x : Layout) : Emitters.KeepSource IsNaming x where
  toInvariant := invariant
  source y _ := sourceText y.span
  token y _ _ := tokenText y.span
  splice _ _ _ _ h := splice (g := emitters) h

/-- The code of an expression is made by a naming. -/
theorem emitExpr (c : Context) (e : Expr) : IsNaming String (emitExpr c e) :=
  ((keepSource e.layout).emit e.layout.mem_nodes_self).expr c e rfl

/-- The code of markup is made by a naming. -/
theorem emitMarkup (m : Markup) : IsNaming String (emitMarkup m) :=
  ((keepSource m.layout).emit m.layout.mem_nodes_self).markup m rfl

/-- The block of an element is made by a naming. -/
theorem emitBlock (e : Element) : IsNaming String (emitBlock e) :=
  ((keepSource e.layout).emit e.layout.mem_nodes_self).block e rfl

/-- All that emitters make of what is in a tree is made by namings. -/
theorem relate (x : Layout) : Emitters.Relate (fun α p _ => IsNaming α p) 0 x where
  toRelation := invariant.relation
  source y hy := (keepSource x).source y hy
  token y hy := (keepSource x).token y hy
  splice y hy := (keepSource x).splice y hy
  expr c e _ := emitExpr c e
  markup m _ := emitMarkup m
  block e _ := emitBlock e

end Emit.IsNaming

/-- The computations that make code of a tree or of a stretch of the source. -/
inductive Generator : Emit String → Prop where
  | expr (context : Context) (e : Expr) : Generator (emitExpr context e)
  | markup (m : Markup) : Generator (emitMarkup m)
  | element (e : Element) : Generator (emitters.element e)
  | fragment (children : List Child) : Generator (emitters.fragment children)
  | component (e : Element) : Generator (emitters.component e)
  | block (e : Element) : Generator (emitters.elementBlock e)
  | listBinding (marker : String) (list : ListShape) : Generator (emitters.listBinding marker list)
  | serverElement (e : Element) : Generator (emitters.serverElement e)
  | splice (stretch : Stretch) : Generator (emitters.splice stretch)

/-- Code is made by namings. -/
theorem Generator.isNaming {p : Emit String} (h : Generator p) : Emit.IsNaming String p := by
  cases h with
  | expr context e => exact Emit.IsNaming.emitExpr context e
  | markup m => exact Emit.IsNaming.emitMarkup m
  | element e => exact Emitters.Relate.markupText (.element e) (Emit.IsNaming.relate _)
  | fragment children =>
    exact Emitters.Relate.markupText (.fragment ⟨0, 0⟩ children) (Emit.IsNaming.relate _)
  | component e => exact (Emit.IsNaming.relate e.layout).component fun _ hy => hy
  | block e => exact (Emit.IsNaming.relate e.layout).elementBlock fun _ hy => hy
  | listBinding marker list =>
    -- The array and the callback of a list need not be next to each other in a tree.
    have hrelate :=
      Emit.IsNaming.relate (.mk .plain ⟨0, 0⟩ [list.array.layout, list.callback.layout])
    exact hrelate.listBinding marker (mem_inner_of_mem_parts (.head _))
      (mem_inner_of_mem_parts mem_second)
  | serverElement e => exact (Emit.IsNaming.relate e.layout).serverElement fun _ hy => hy
  | splice stretch => exact Emit.IsNaming.splice fun m _ => Emit.IsNaming.emitMarkup m

/-- The code for all markup of a module is made by a naming. -/
theorem Emit.IsNaming.emitReplacements (markups : List Markup) :
    IsNaming (List Replacement) (emitReplacements markups) :=
  invariant.mapM fun m _ => invariant.bind (emitMarkup m) fun _ => invariant.pure _

/-! ## Names in code -/

/-- What a naming makes has the names of a table in it: it is what the naming makes of these names,
and each name that it asks for is declared in the table for the text that it asks with. -/
structure Naming.Settled {α : Type} (q : Naming α) (table : TemplateTable)
    (result : Except EmitError α) : Prop where
  filled : q.fill table.nameOf = result
  declared : ∀ text ∈ q.texts table.nameOf, table.Declares (table.nameOf text) text

/-- What a naming makes has the names of any later table in it. -/
theorem Naming.settled {α : Type} (q : Naming α) {table later : TemplateTable}
    (h : table.Consistent) (hlater : later.Continues (q.run table).2) :
    q.Settled later (q.run table).1 where
  filled := (q.fill_eq h hlater).1
  declared text htext := TemplateTable.declares_nameOf ((q.fill_eq h hlater).2 text htext)

/-- The header of a module has a declaration for each entry of the table. -/
theorem moduleHeader_eq (options : CompileOptions) (table : TemplateTable)
    (helpers : List String) :
    moduleHeader options table helpers =
      importLine helpers options.runtimeModule
        ++ String.join (table.entries.map fun (id, text) =>
          declaration options.target id text ++ "\n") := by
  unfold moduleHeader TemplateTable.entries
  rw [List.map_map]
  rfl

/-- Templates keep their names. Whatever is done with a table from the empty one on, it stays
consistent, and until it is reset a name stands for one text; and a manager that stores names and
indices does not miss a template, stays consistent and gives the names of the table. Every
generator, on every tree, leaves a consistent table that continues the one it was started on,
whether it fails or not, and what it makes has the names of any later table in it. So has the code
of a file, with the names that are declared in its header. -/
theorem template_names_kept :
    (∀ steps : List TemplateTable.Step,
      (∃ manager, TemplateManager.after? steps = some manager ∧ manager.Consistent ∧
        manager.table = TemplateTable.after steps ∧ ∀ text : String,
          (manager.intern? text).map Prod.fst = some ((TemplateTable.after steps).intern text).1) ∧
      (TemplateTable.after steps).Consistent ∧
      ∀ (a b : String) (between : List String),
        ((TemplateTable.after steps).intern a).1 =
          ((between.foldl (fun table text => (table.intern text).2)
            ((TemplateTable.after steps).intern a).2).intern b).1 ↔ a = b) ∧
    (∀ p : Emit String, Generator p → ∀ env : Env, ∃ q : Naming String, ∀ table : TemplateTable,
      p.runFrom env table = q.run table ∧
      (table.Consistent → (p.runFrom env table).2.Consistent ∧
        (p.runFrom env table).2.Continues table ∧
        ∀ later : TemplateTable, later.Continues (p.runFrom env table).2 →
          q.Settled later (p.runFrom env table).1)) ∧
    (∀ (source fileId code : String) (options : CompileOptions),
      compile source fileId options = .ok (some code) →
      ∃ (m : Module) (q : Naming (List Replacement)) (table : TemplateTable)
        (replacements : List Replacement) (helpers : List String),
        parseModule (FileId.dialect fileId) source.toList = .ok m ∧
        (∀ start, (emitReplacements m.markups).runFrom ⟨source.toList, options⟩ start =
          q.run start) ∧
        q.run {} = (.ok replacements, table) ∧ table.Consistent ∧
        q.Settled table (.ok replacements) ∧
        code = importLine helpers options.runtimeModule
          ++ String.join (table.entries.map fun (id, text) =>
            declaration options.target id text ++ "\n")
          ++ String.ofList (Replacement.applyAll 0 source.toList replacements)) := by
  refine ⟨fun steps => ?_, fun p hp env => ?_, fun source fileId code options hcode => ?_⟩
  · -- The manager and the table take the same steps.
    obtain ⟨manager, hafter, hconsistent, htable⟩ := TemplateManager.after?_spec steps
    refine ⟨⟨manager, hafter, hconsistent, htable, fun text => ?_⟩,
      TemplateTable.consistent_after steps, TemplateTable.intern_fst_eq_iff _⟩
    obtain ⟨later, hintern, -⟩ := hconsistent.intern?_eq text
    rw [hintern, htable]
    rfl
  · obtain ⟨q, hq⟩ := hp.isNaming env
    refine ⟨q, fun table => ⟨hq table, fun htable => ?_⟩⟩
    rw [hq]
    obtain ⟨hconsistent, hcontinues⟩ := q.run_spec htable
    exact ⟨hconsistent, hcontinues, fun later hlater => q.settled htable hlater⟩
  · obtain ⟨m, replacements, table, hparse, hrun, -, rfl⟩ := exists_of_compile_eq hcode
    obtain ⟨q, hq⟩ := Emit.IsNaming.emitReplacements m.markups ⟨source.toList, options⟩
    -- The module is emitted from the empty table, so all its names stand in the last one.
    have hempty : ({} : TemplateTable).Consistent := TemplateTable.consistent_after []
    have hrun : q.run {} = (.ok replacements, table) := (hq {}).symm.trans hrun
    have hconsistent := (q.run_spec hempty).1
    have hsettled := q.settled hempty (.refl _)
    rw [hrun] at hconsistent hsettled
    have hassemble := assemble_eq options table
      (String.ofList (Replacement.applyAll 0 source.toList replacements))
    rw [moduleHeader_eq] at hassemble
    exact ⟨m, q, table, replacements, _, hparse, hq, hrun, hconsistent, hsettled, hassemble⟩

/-- Two empty paragraphs. -/
def emptyParagraphs : List Child :=
  [.markup (.element ⟨⟨0, 4⟩, .plain "p", [], []⟩), .markup (.element ⟨⟨5, 9⟩, .plain "p", [], []⟩)]

/-- Two paragraphs that share a template: as the children of a fragment whose code is made when
another template has been named, and in a file. -/
theorem template_names_kept_paragraphs :
    (∃ table, (emitters.fragment emptyParagraphs).runFrom ⟨[], {}⟩ ⟨["<i></i>"]⟩ =
        (.ok "[_$clone(_tmpl$1), _$clone(_tmpl$1)]", table) ∧
      table.Consistent ∧ table.Continues ⟨["<i></i>"]⟩) ∧
    ∃ code, compile "[<p/>,<p/>]" "a.js" {} = .ok (some code) ∧
      ∃ (q : Naming (List Replacement)) (table : TemplateTable) (replacements : List Replacement),
        q.run {} = (.ok replacements, table) ∧ q.Settled table (.ok replacements) := by
  obtain ⟨-, hgenerator, hcompile⟩ := template_names_kept
  constructor
  · have hrun : (emitters.fragment emptyParagraphs).runFrom ⟨[], {}⟩ ⟨["<i></i>"]⟩ =
        (.ok "[_$clone(_tmpl$1), _$clone(_tmpl$1)]", ⟨["<i></i>", "<p></p>"]⟩) := by rfl
    have hstart : TemplateTable.Consistent ⟨["<i></i>"]⟩ :=
      TemplateTable.consistent_after [.intern "<i></i>"]
    obtain ⟨q, hq⟩ := hgenerator _ (.fragment emptyParagraphs) ⟨[], {}⟩
    obtain ⟨hconsistent, hcontinues, -⟩ := (hq _).2 hstart
    rw [hrun] at hconsistent hcontinues
    exact ⟨_, hrun, hconsistent, hcontinues⟩
  · have hsome : (compile "[<p/>,<p/>]" "a.js" {}).toOption.join.isSome = true := by
      decide +kernel
    obtain ⟨code, hcode⟩ := exists_of_isSome_join hsome
    obtain ⟨m, q, table, replacements, helpers, -, -, hrun, -, hsettled, -⟩ :=
      hcompile _ _ _ _ hcode
    exact ⟨code, hcode, q, table, replacements, hrun, hsettled⟩

end MarkupCompiler
