import MarkupCompiler.Proofs.ComponentProperties
import MarkupCompiler.Proofs.LeftEnds
import MarkupCompiler.Proofs.WellFormed
import MarkupCompiler.Proofs.WordBoundary

/-!
# What the code of an expression begins with

The code of an expression begins with that of its left operand (`Expr.left?`), and no brace comes
after the operand. So whether it begins with a brace is decided at the left end, where there is no
operand any more: the code of an object does, other code does not, and a target that keeps its text
does if it begins with an object. The code of an expression that stands in the source thus begins
with a brace exactly if an object stands at its left end (`opensBrace_of_emitExpr`).

Code that comes in place of markup never begins with a brace, but it could come in place of one if
markup started at the brace or before it. In an expression that stands in the source
(`Expr.StandsIn`) it does not.
-/

namespace MarkupCompiler

open Syntax Grammar Text

/-! ## Braces at the front of a text -/

namespace Text

variable {text rest : List Char}

/-- What comes after a text decides only if the text is empty. -/
theorem opensBrace_append (h : opensBrace rest = false) :
    opensBrace (text ++ rest) = opensBrace text := by
  cases text with
  | nil => exact h
  | cons c text => rfl

/-- What follows a text does not change how it opens. -/
theorem opensBrace_append_of_ne_nil (h : text ≠ []) :
    opensBrace (text ++ rest) = opensBrace text := by
  cases text with
  | nil => exact absurd rfl h
  | cons c text => rfl

/-- A slice that is not empty begins with what stands at its start. -/
theorem opensBrace_slice {source part : List Char} {span : Span}
    (hpart : slice? source span = some part) (hlt : span.start < span.stop) :
    opensBrace part = braceAt source span.start := by
  obtain ⟨before, after, rfl, hstart, hstop⟩ := slice?_eq_some.1 hpart
  have hne : part ≠ [] := by
    rintro rfl
    rw [byteLength] at hstop
    omega
  rw [braceAt, ← hstart, cutAt?_append]
  exact (opensBrace_append_of_ne_nil hne).symm

/-- A slice does not begin with a brace if none stands at its start. -/
theorem opensBrace_slice_of_not {source part : List Char} {span : Span}
    (hpart : slice? source span = some part) (hnot : braceAt source span.start = false) :
    opensBrace part = false := by
  cases part with
  | nil => rfl
  | cons c part =>
    obtain ⟨before, after, -, -, hstop⟩ := slice?_eq_some.1 hpart
    have hpos := c.utf8Size_pos
    rw [byteLength] at hstop
    rw [opensBrace_slice hpart (by omega), hnot]

/-- A text that begins, but not with an opening brace. -/
def BeginsApart (text : List Char) : Prop := ∃ c rest, text = c :: rest ∧ c ≠ '\x7b'

/-- A text begins apart from braces if it is there and opens none. -/
theorem beginsApart_iff : BeginsApart text ↔ text ≠ [] ∧ opensBrace text = false := by
  cases text with
  | nil => simp [BeginsApart]
  | cons c rest => simp [BeginsApart, opensBrace]

instance (text : List Char) : Decidable (BeginsApart text) := decidable_of_iff' _ beginsApart_iff

/-- It still does with more text behind it. -/
theorem BeginsApart.append (h : BeginsApart text) (more : List Char) :
    BeginsApart (text ++ more) := by
  obtain ⟨c, rest, rfl, hc⟩ := h
  exact ⟨c, rest ++ more, rfl, hc⟩

/-- Such a text opens no brace. -/
theorem BeginsApart.opensBrace (h : BeginsApart text) : opensBrace text = false :=
  (beginsApart_iff.1 h).2

/-- Code that goes on with a text that begins apart. -/
theorem BeginsApart.string {first : String} (h : BeginsApart first.toList) (more : String) :
    BeginsApart (first ++ more).toList := by
  rw [String.toList_append]
  exact h.append _

/-- Code begins with a brace if its first part does, unless that is empty and what comes next
begins with one. -/
theorem opensBrace_string_append (first : String) {more : String}
    (h : opensBrace more.toList = false) :
    opensBrace (first ++ more).toList = opensBrace first.toList := by
  rw [String.toList_append, opensBrace_append h]

end Text

/-! ## Replacements at the front of a text -/

namespace Replacement

variable {base : Nat} {text : List Char} {r : Replacement} {rs : List Replacement}

/-- A replacement leaves the front of a text as it is, or puts its own text there. -/
theorem apply_begins (base : Nat) (text : List Char) (r : Replacement) :
    (∃ rest, apply base text r = r.text ++ rest) ∨
      ∃ c rest rest', text = c :: rest ∧ apply base text r = c :: rest' := by
  unfold apply
  have hparts := cutNear_append (r.span.start - base) text
  cases hbefore : (cutNear (r.span.start - base) text).1 with
  | nil => exact .inl ⟨_, rfl⟩
  | cons c before =>
    rw [hbefore] at hparts
    exact .inr ⟨c, _, _, hparts.symm, rfl⟩

/-- A replacement that starts after the front of a text leaves the brace there. -/
theorem opensBrace_apply (hlt : base < r.span.start) (htext : opensBrace text = true) :
    opensBrace (apply base text r) = true := by
  cases text with
  | nil => cases htext
  | cons c text =>
    obtain rfl : c = '\x7b' := Option.some.inj (eq_of_beq htext)
    obtain ⟨n, hn⟩ : ∃ n, r.span.start - base = n + 1 := ⟨r.span.start - base - 1, by omega⟩
    have hsize : ('\x7b' : Char).utf8Size ≤ n + 1 := Nat.le_add_left 1 n
    unfold apply
    rw [hn, cutNear, if_pos hsize]
    rfl

/-- What each replacement keeps, all of them keep. -/
theorem applyAll_induction {P : List Char → Prop} (htext : P text)
    (hstep : ∀ text, P text → ∀ r ∈ rs, P (apply base text r)) : P (applyAll base text rs) :=
  List.foldlRecOn _ _ htext fun text htext r hr => hstep text htext r (List.mem_mergeSort.1 hr)

/-- Replacements by texts that begin apart do not put a brace at the front. -/
theorem opensBrace_applyAll_of_not (hrs : ∀ r ∈ rs, BeginsApart r.text)
    (htext : opensBrace text = false) : opensBrace (applyAll base text rs) = false := by
  refine applyAll_induction (P := fun text => opensBrace text = false) htext
    fun text htext r hr => ?_
  rcases apply_begins base text r with ⟨rest, happly⟩ | ⟨c, rest, rest', rfl, happly⟩
  · rw [happly]
    exact ((hrs r hr).append rest).opensBrace
  · rw [happly]
    exact htext

/-- A text that begins apart does so after replacements by such texts. -/
theorem beginsApart_applyAll (hrs : ∀ r ∈ rs, BeginsApart r.text) (htext : BeginsApart text) :
    BeginsApart (applyAll base text rs) := by
  refine applyAll_induction htext fun text htext r hr => ?_
  rcases apply_begins base text r with ⟨rest, happly⟩ | ⟨c, rest, rest', rfl, happly⟩
  · rw [happly]
    exact (hrs r hr).append rest
  · obtain ⟨d, tail, heq, hd⟩ := htext
    rw [happly]
    exact ⟨c, rest', rfl, (List.cons.inj heq).1 ▸ hd⟩

/-- Replacements that start after the front of a text leave the brace there. -/
theorem opensBrace_applyAll (hrs : ∀ r ∈ rs, base < r.span.start)
    (htext : opensBrace text = true) : opensBrace (applyAll base text rs) = true :=
  applyAll_induction (P := fun text => opensBrace text = true) htext
    fun _ htext r hr => opensBrace_apply (hrs r hr) htext

end Replacement

/-! ## The left end of an expression -/

namespace Syntax

/-- The operand whose code the code of an expression begins with. -/
def Expr.left? : Expr → Option Expr
  | .binary _ _ e _ | .conditional _ e _ _ | .sequence _ (e :: _) | .call _ e _ _ _
  | .tagged _ e _ _ _ | .chain _ e | .member _ e _ _ | .index _ e _ _ => some e
  | .typed _ mark inner => if mark.isBefore then none else some inner
  | _ => none

/-- An expression stands in the source: what is at its left end is there in the source, markup in it
opens a tag, and if there is markup in it its parts lie in each other. -/
structure Expr.StandsIn (source : List Char) (e : Expr) : Prop where
  led : e.LedIn source
  opened : e.layout.Opened source
  wellFormed : e.markups ≠ [] → e.layout.WellFormed source

section

variable {e operand : Expr} (hleft : e.left? = some operand)

include hleft

/-- An operand is less deep than what it stands in. -/
theorem Expr.depth_lt_of_left? : operand.depth < e.depth := by
  fun_cases Expr.left? e <;> simp_all [Expr.left?, Expr.depth, exprsDepth]

/-- The left end of an expression is that of its left operand. -/
theorem Expr.opensObject_of_left? : e.opensObject = operand.opensObject := by
  fun_cases Expr.left? e <;> simp_all [Expr.left?, Expr.opensObject]

/-- The leftmost operand is led as the expression is. -/
theorem Expr.LedIn.left {source : List Char} (hin : e.LedIn source) : operand.LedIn source := by
  fun_cases Expr.left? e <;> simp_all [Expr.left?, Expr.LedIn]

/-- The left operand is a part of an expression. -/
theorem Expr.layout_mem_parts_of_left? : operand.layout ∈ e.layout.parts := by
  fun_cases Expr.left? e <;> simp_all [Expr.left?, Expr.layout, Layout.parts, exprsLayouts]

/-- The markup of the left operand is markup of the expression. -/
theorem Expr.markups_subset_of_left? : operand.markups ⊆ e.markups := by
  fun_cases Expr.left? e <;> simp_all [Expr.left?, Expr.markups, exprsMarkups]

/-- The leftmost operand stands where the expression does. -/
theorem Expr.StandsIn.left {source : List Char} (h : e.StandsIn source) :
    operand.StandsIn source := by
  have hmem : operand.layout ∈ e.layout.nodes :=
    Layout.mem_nodes_of_mem_inner
      (Layout.mem_inner_of_mem_parts (Expr.layout_mem_parts_of_left? hleft))
  have hmarkups : operand.markups ≠ [] → e.markups ≠ [] := by
    intro hne heq
    exact hne (List.subset_nil.1 (heq ▸ Expr.markups_subset_of_left? hleft))
  exact ⟨h.led.left hleft, h.opened.of_mem hmem,
    fun hne => (h.wellFormed (hmarkups hne)).of_mem hmem⟩

end

/-- Markup in an expression that begins with a brace comes after the brace. -/
theorem Expr.lt_start_of_mem_markups {source : List Char} {e : Expr}
    (hwf : e.markups ≠ [] → e.layout.WellFormed source) (hopened : e.layout.Opened source)
    (hbrace : braceAt source e.span.start = true) :
    ∀ m ∈ e.markups, e.span.start < m.span.start := by
  intro m hm
  have houter : m.layout ∈ e.layout.outermost Layout.isMarkup := by
    rw [e.outermost_layout]
    exact List.mem_map_of_mem hm
  have hmem : m.layout ∈ e.layout.nodes := (Layout.mem_of_mem_outermost houter).1
  have hinside : e.span.start ≤ m.span.start := by
    rw [← e.span_layout, ← m.span_layout]
    exact ((hwf (List.ne_nil_of_mem hm)).inside hmem).1
  -- A tag does not open where a brace stands.
  have htag : braceAt source m.span.start = false := by
    rw [← m.span_layout]
    exact ((hopened _ hmem).opens m.isMarkup_layout).braceAt
  refine Nat.lt_of_le_of_ne hinside fun heq => ?_
  rw [heq, htag] at hbrace
  cases hbrace

end Syntax

section

variable {env : Env} {table table' : TemplateTable} {code : String}

/-! ## Code of markup and copied text -/

/-- The code of an element begins apart. -/
theorem beginsApart_of_element {e : Element}
    (h : (emitters.element e).runFrom env table = (.ok code, table')) :
    BeginsApart code.toList := by
  unfold Emitters.element at h
  split at h
  · obtain ⟨c, rest, hcode, -⟩ := component_beginsWith h
    rw [hcode]
    exact .append (by decide) _
  · obtain ⟨env', _, henv, h⟩ := Emit.runFrom_bind_eq_ok.1 h
    cases henv
    split at h
    · obtain ⟨c, rest, hcode, -⟩ := serverElement_beginsWith h
      rw [hcode]
      exact .append (by decide) _
    · split at h
      · obtain ⟨template, -, rfl⟩ := Emit.runFrom_bind_pure_eq_ok.1 h
        exact .string (.string (by decide) _) _
      · obtain ⟨block, -, rfl⟩ := Emit.runFrom_bind_pure_eq_ok.1 h
        exact .string (.string (by decide) _) _

/-- The code of markup begins apart. -/
theorem beginsApart_of_emitMarkup {m : Markup}
    (h : (emitMarkup m).runFrom env table = (.ok code, table')) : BeginsApart code.toList := by
  rw [emitMarkup_eq] at h
  cases m with
  | element e => exact beginsApart_of_element h
  | fragment span children =>
    obtain ⟨values, -, rfl⟩ := Emit.runFrom_bind_pure_eq_ok.1 h
    exact .string (.string (by decide) _) _

variable {span : Span} {context : Context}

/-- Text of the source does not begin with a brace if none stands at its start. -/
theorem opensBrace_sourceText (h : (sourceText span).runFrom env table = (.ok code, table'))
    (hnot : braceAt env.source span.start = false) : opensBrace code.toList = false := by
  obtain ⟨part, hpart, rfl⟩ := exists_slice_of_sourceText h
  rw [String.toList_ofList]
  exact opensBrace_slice_of_not hpart hnot

/-- The text of a token does not begin with a brace if none stands at its start. -/
theorem opensBrace_tokenText (h : (tokenText span).runFrom env table = (.ok code, table'))
    (hnot : braceAt env.source span.start = false) : opensBrace code.toList = false := by
  unfold tokenText at h
  split at h
  · cases h
  · exact opensBrace_sourceText h hnot

/-- Type arguments do not begin with a brace. -/
theorem opensBrace_typeArguments {types : Option Span}
    (h : (Emitters.typeArguments types).runFrom env table = (.ok code, table'))
    (hin : TypeArgumentsIn env.source types) : opensBrace code.toList = false := by
  cases types with
  | none =>
    cases h
    decide
  | some span => exact opensBrace_sourceText h (hin span rfl)

/-- What is spliced into a stretch of the source is code of the markup in it. -/
theorem beginsApart_of_emitReplacements {markups : List Markup} {rs : List Replacement}
    (h : (emitReplacements markups).runFrom env table = (.ok rs, table')) :
    ∀ r ∈ rs, BeginsApart r.text ∧ ∃ m ∈ markups, r.span = m.span := by
  intro r hr
  obtain ⟨m, hm, table₁, table₂, hrun⟩ :=
    Emit.exists_of_forall₂ (Emit.forall₂_of_runFrom_mapM h) r hr
  obtain ⟨text, htext, rfl⟩ := Emit.runFrom_bind_pure_eq_ok.1 hrun
  exact ⟨beginsApart_of_emitMarkup htext, m, hm, rfl⟩

variable {stretch : Stretch}

/-- A stretch of the source that keeps its text does not begin with a brace if none stands at its
start. -/
theorem opensBrace_splice_of_not
    (h : (emitters.splice stretch).runFrom env table = (.ok code, table'))
    (hnot : braceAt env.source stretch.span.start = false) : opensBrace code.toList = false := by
  obtain ⟨part, rs, table₁, hpart, hrs, rfl⟩ := exists_of_splice h
  rw [String.toList_ofList]
  exact Replacement.opensBrace_applyAll_of_not
    (fun r hr => (beginsApart_of_emitReplacements hrs r hr).1) (opensBrace_slice_of_not hpart hnot)

/-- If the stretch is not empty, its code begins apart. -/
theorem beginsApart_splice
    (h : (emitters.splice stretch).runFrom env table = (.ok code, table'))
    (hnot : braceAt env.source stretch.span.start = false)
    (hlt : stretch.span.start < stretch.span.stop) : BeginsApart code.toList := by
  obtain ⟨part, rs, table₁, hpart, hrs, rfl⟩ := exists_of_splice h
  rw [String.toList_ofList]
  refine Replacement.beginsApart_applyAll
    (fun r hr => (beginsApart_of_emitReplacements hrs r hr).1) (beginsApart_iff.2 ⟨?_, ?_⟩)
  · rintro rfl
    obtain ⟨before, after, -, -, hstop⟩ := slice?_eq_some.1 hpart
    rw [byteLength] at hstop
    omega
  · exact opensBrace_slice_of_not hpart hnot

/-- A stretch of the source that starts with a brace keeps it if all markup comes after it. -/
theorem opensBrace_splice
    (h : (emitters.splice stretch).runFrom env table = (.ok code, table'))
    (hbrace : braceAt env.source stretch.span.start = true)
    (hlt : stretch.span.start < stretch.span.stop)
    (hmarkups : ∀ m ∈ stretch.markups, stretch.span.start < m.span.start) :
    opensBrace code.toList = true := by
  obtain ⟨part, rs, table₁, hpart, hrs, rfl⟩ := exists_of_splice h
  rw [String.toList_ofList]
  refine Replacement.opensBrace_applyAll (fun r hr => ?_)
    ((opensBrace_slice hpart hlt).trans hbrace)
  obtain ⟨-, m, hm, hspan⟩ := beginsApart_of_emitReplacements hrs r hr
  rw [hspan]
  exact hmarkups m hm

/-- A target begins with a brace exactly if it begins with an object. -/
theorem opensBrace_target {target : Expr}
    (h : (emitters.splice (.target target)).runFrom env table = (.ok code, table'))
    (hin : target.TargetIn env.source) (hopened : target.layout.Opened env.source)
    (hwf : target.markups ≠ [] → target.layout.WellFormed env.source) :
    opensBrace code.toList = target.opensObject := by
  cases hopens : target.opensObject with
  | true =>
    have hbrace : braceAt env.source target.span.start = true := hin.brace.trans hopens
    exact opensBrace_splice h hbrace (hin.nonempty hopens)
      (Expr.lt_start_of_mem_markups hwf hopened hbrace)
  | false => exact opensBrace_splice_of_not h (hin.brace.trans hopens)

/-- A function does not begin with a brace. -/
theorem opensBrace_function {params : List Expr} {body : Body}
    (h : (emitters.function span params body).runFrom env table = (.ok code, table'))
    (hin : FunctionIn env.source span body) : opensBrace code.toList = false := by
  cases body with
  | missing => exact opensBrace_tokenText h hin.brace
  | expr | block =>
    obtain ⟨head, table₁, hhead, h⟩ := Emit.runFrom_bind_eq_ok.1 h
    obtain ⟨rest, -, rfl⟩ := Emit.runFrom_bind_pure_eq_ok.1 h
    have hhead := beginsApart_splice hhead hin.brace (hin.head _ rfl)
    exact (hhead.string rest).opensBrace

/-! ## Code of expressions -/

/-- After the first of several texts a comma comes next, or nothing. -/
theorem exists_joinWith_cons (first : String) (texts : List String) :
    ∃ rest, joinWith ", " (first :: texts) = first ++ rest ∧ opensBrace rest.toList = false := by
  cases texts with
  | nil => exact ⟨"", String.append_empty.symm, by decide⟩
  | cons second texts =>
    exact ⟨", " ++ joinWith ", " (second :: texts), String.append_assoc,
      (BeginsApart.string (by decide) _).opensBrace⟩

/-- A list of properties in braces begins with a brace. -/
theorem opensBrace_braced (entries : List String) :
    opensBrace (Emitters.braced entries).toList = true := by
  unfold Emitters.braced
  split
  · decide
  · rw [String.append_assoc, String.toList_append]
    rfl

/-- A literal does not begin with a brace. -/
theorem opensBrace_literal {value : Literal}
    (h : (Emitters.literal span value).runFrom env table = (.ok code, table'))
    (hnot : braceAt env.source span.start = false) : opensBrace code.toList = false := by
  cases value with
  | null =>
    cases h
    decide
  | boolean value =>
    cases h
    cases value <;> decide
  | _ => exact opensBrace_tokenText h hnot

/-- Two texts of which neither begins with a brace do not do so together. -/
theorem opensBrace_both {first more : String} (hfirst : opensBrace first.toList = false)
    (hmore : opensBrace more.toList = false) : opensBrace (first ++ more).toList = false :=
  (opensBrace_string_append first hmore).trans hfirst

/-- What may stand between an operand and what is done with it. -/
theorem opensBrace_link (isOptional : Bool) :
    opensBrace (if isOptional = true then "?." else "").toList = false := by
  cases isOptional <;> decide

/-- What a type says after an expression does not begin with a brace. -/
theorem exists_typed {mark : TypeMark} {inner : String} (hafter : mark.isBefore = false)
    (h : (Emitters.typed mark inner).runFrom env table = (.ok code, table'))
    (hin : TypeArgumentsIn env.source mark.arguments?) :
    ∃ rest, code = inner ++ rest ∧ opensBrace rest.toList = false := by
  cases mark with
  | asType type =>
    obtain ⟨text, -, rfl⟩ := Emit.runFrom_bind_pure_eq_ok.1 h
    exact ⟨" as " ++ text, String.append_assoc, (BeginsApart.string (by decide) _).opensBrace⟩
  | satisfies type =>
    obtain ⟨text, -, rfl⟩ := Emit.runFrom_bind_pure_eq_ok.1 h
    exact ⟨" satisfies " ++ text, String.append_assoc,
      (BeginsApart.string (by decide) _).opensBrace⟩
  | assertion type => cases hafter
  | nonNull =>
    cases h
    exact ⟨"!", rfl, by decide⟩
  | instantiation types =>
    obtain ⟨text, htext, rfl⟩ := Emit.runFrom_bind_pure_eq_ok.1 h
    exact ⟨text, rfl, opensBrace_sourceText htext (hin types rfl)⟩

/-- The code of a call begins with that of what is called, and no brace comes next. -/
theorem exists_called {callee : Expr} {types : Option Span} {arguments : List Item}
    {isOptional : Bool}
    (h : (emitters.call context callee types arguments isOptional).runFrom env table =
      (.ok code, table')) (hin : TypeArgumentsIn env.source types) :
    ∃ context' text rest table₁,
      (emitExpr context' callee).runFrom env table = (.ok text, table₁) ∧ code = text ++ rest ∧
        opensBrace rest.toList = false := by
  unfold Emitters.call at h
  split at h
  · -- An accessor that is handed over is not called.
    exact ⟨.plain, code, "", table', h, String.append_empty.symm, by decide⟩
  · obtain ⟨text, table₁, htext, h⟩ := Emit.runFrom_bind_eq_ok.1 h
    obtain ⟨typesText, table₂, htypes, h⟩ := Emit.runFrom_bind_eq_ok.1 h
    obtain ⟨texts, -, rfl⟩ := Emit.runFrom_bind_pure_eq_ok.1 h
    have hparens : opensBrace ("(" ++ (joinWith ", " texts ++ ")")).toList = false :=
      (BeginsApart.string (by decide) _).opensBrace
    refine ⟨_, text, _, table₁, htext, ?_, opensBrace_both (opensBrace_link isOptional)
      (opensBrace_both (opensBrace_typeArguments htypes hin) hparens)⟩
    simp only [String.append_assoc]

/-- The code of an expression begins with that of its left operand, and no brace comes next. -/
theorem exists_left_of_emitExpr {e left : Expr} (hleft : e.left? = some left)
    (h : (emitExpr context e).runFrom env table = (.ok code, table')) (hin : e.LedIn env.source) :
    ∃ context' text rest table₁,
      (emitExpr context' left).runFrom env table = (.ok text, table₁) ∧ code = text ++ rest ∧
        opensBrace rest.toList = false := by
  rw [emitExpr_eq] at h
  -- Behind the left operand comes a fixed text, or a link, and neither opens a brace.
  cases e with
  | binary span op left right =>
    obtain rfl := Option.some.inj hleft
    obtain ⟨text, table₁, htext, h⟩ := Emit.runFrom_bind_eq_ok.1 h
    obtain ⟨rightText, -, rfl⟩ := Emit.runFrom_bind_pure_eq_ok.1 h
    refine ⟨_, text, " " ++ (op.text ++ (" " ++ rightText)), table₁, htext, ?_, ?_⟩
    · simp only [String.append_assoc]
    · exact (BeginsApart.string (by decide) _).opensBrace
  | conditional span test consequent alternate =>
    obtain rfl := Option.some.inj hleft
    obtain ⟨text, table₁, htext, h⟩ := Emit.runFrom_bind_eq_ok.1 h
    obtain ⟨first, table₂, -, h⟩ := Emit.runFrom_bind_eq_ok.1 h
    obtain ⟨second, -, rfl⟩ := Emit.runFrom_bind_pure_eq_ok.1 h
    refine ⟨_, text, " ? " ++ (first ++ (" : " ++ second)), table₁, htext, ?_, ?_⟩
    · simp only [String.append_assoc]
    · exact (BeginsApart.string (by decide) _).opensBrace
  | sequence span parts =>
    cases parts with
    | nil => cases hleft
    | cons first parts =>
      obtain rfl := Option.some.inj hleft
      obtain ⟨texts, htexts, rfl⟩ := Emit.runFrom_bind_pure_eq_ok.1 h
      obtain ⟨text, more, table₂, htext, -, rfl⟩ := Emit.runFrom_mapM_cons_eq_ok.1 htexts
      obtain ⟨rest, hjoin, hrest⟩ := exists_joinWith_cons text more
      exact ⟨_, text, rest, table₂, htext, hjoin, hrest⟩
  | call span callee types arguments isOptional =>
    obtain rfl := Option.some.inj hleft
    exact exists_called h hin.2
  | tagged span tag types quasis values =>
    obtain rfl := Option.some.inj hleft
    obtain ⟨text, table₁, htext, h⟩ := Emit.runFrom_bind_eq_ok.1 h
    obtain ⟨typesText, table₂, htypes, h⟩ := Emit.runFrom_bind_eq_ok.1 h
    obtain ⟨template, htemplate, rfl⟩ := Emit.runFrom_bind_pure_eq_ok.1 h
    obtain ⟨texts, -, rfl⟩ := Emit.runFrom_bind_pure_eq_ok.1 htemplate
    have hquotes : opensBrace ("`" ++ (Emitters.templateText quasis texts ++ "`")).toList = false :=
      (BeginsApart.string (by decide) _).opensBrace
    refine ⟨_, text, _, table₁, htext, ?_,
      opensBrace_both (opensBrace_typeArguments htypes hin.2) hquotes⟩
    simp only [String.append_assoc]
  | chain span inner =>
    obtain rfl := Option.some.inj hleft
    exact ⟨_, code, "", table', h, String.append_empty.symm, by decide⟩
  | member span owner name isOptional =>
    obtain rfl := Option.some.inj hleft
    obtain ⟨text, htext, rfl⟩ := Emit.runFrom_bind_pure_eq_ok.1 h
    refine ⟨_, text, (if isOptional = true then "?." else ".") ++ name.text, _, htext, ?_, ?_⟩
    · simp only [String.append_assoc]
    · cases isOptional <;> exact (BeginsApart.string (by decide) _).opensBrace
  | index span owner key isOptional =>
    obtain rfl := Option.some.inj hleft
    obtain ⟨text, table₁, htext, h⟩ := Emit.runFrom_bind_eq_ok.1 h
    obtain ⟨keyText, -, rfl⟩ := Emit.runFrom_bind_pure_eq_ok.1 h
    have hbrackets : opensBrace ("[" ++ (keyText ++ "]")).toList = false :=
      (BeginsApart.string (by decide) _).opensBrace
    refine ⟨_, text, _, table₁, htext, ?_, opensBrace_both (opensBrace_link isOptional) hbrackets⟩
    simp only [String.append_assoc]
  | typed span mark inner =>
    cases hbefore : mark.isBefore with
    | true =>
      rw [Expr.left?, if_pos hbefore] at hleft
      cases hleft
    | false =>
      rw [Expr.left?, if_neg (by rw [hbefore]; exact Bool.false_ne_true)] at hleft
      obtain rfl := Option.some.inj hleft
      obtain ⟨text, table₁, htext, h⟩ := Emit.runFrom_bind_eq_ok.1 h
      obtain ⟨rest, hcode, hrest⟩ := exists_typed hbefore h (hin hbefore).2
      exact ⟨_, text, rest, table₁, htext, hcode, hrest⟩
  | _ => cases hleft

/-- The code of an expression without a left operand begins with a brace exactly if it is an object,
or if a target at its front begins with one. -/
theorem opensBrace_of_left?_eq_none {e : Expr} (hleft : e.left? = none)
    (h : (emitExpr context e).runFrom env table = (.ok code, table'))
    (hstands : e.StandsIn env.source) : opensBrace code.toList = e.opensObject := by
  have hin := hstands.led
  rw [emitExpr_eq] at h
  -- Without a left operand the code begins with a token of its own, or with a target.
  cases e with
  | literal span value => exact opensBrace_literal h hin
  | template | paren =>
    obtain ⟨texts, -, rfl⟩ := Emit.runFrom_bind_pure_eq_ok.1 h
    exact (BeginsApart.string (.string (by decide) _) _).opensBrace
  | ident span name =>
    cases h
    exact hin
  | metaProperty span owner property =>
    cases h
    rw [String.append_assoc]
    exact opensBrace_both hin (BeginsApart.string (by decide) _).opensBrace
  | superRef | thisRef =>
    cases h
    exact BeginsApart.opensBrace (by decide)
  | array span items =>
    obtain ⟨texts, -, rfl⟩ := Emit.runFrom_bind_pure_eq_ok.1 h
    exact (BeginsApart.string (.string (.string (by decide) _) _) _).opensBrace
  | object span properties =>
    obtain ⟨texts, -, rfl⟩ := Emit.runFrom_bind_pure_eq_ok.1 h
    exact opensBrace_braced texts
  | arrow | function => exact opensBrace_function h hin
  | classExpr span parts => exact opensBrace_splice_of_not h hin
  | assign span op target value =>
    obtain ⟨text, table₁, htarget, h⟩ := Emit.runFrom_bind_eq_ok.1 h
    obtain ⟨valueText, -, rfl⟩ := Emit.runFrom_bind_pure_eq_ok.1 h
    have hrest : opensBrace (" " ++ (op.text ++ (" " ++ valueText))).toList = false :=
      (BeginsApart.string (by decide) _).opensBrace
    have hmem : target.layout ∈ (Expr.assign span op target value).layout.nodes :=
      Layout.mem_nodes_of_mem_inner (Layout.mem_inner_of_mem_parts (.head _))
    have htext : opensBrace text.toList = target.opensObject := by
      refine opensBrace_target htarget hin (hstands.opened.of_mem hmem) fun hne => ?_
      exact (hstands.wellFormed (List.append_ne_nil_of_left_ne_nil hne _)).of_mem hmem
    simp only [String.append_assoc]
    exact (opensBrace_string_append text hrest).trans htext
  | update span op isBefore target =>
    obtain ⟨text, htarget, rfl⟩ := Emit.runFrom_bind_pure_eq_ok.1 h
    have hop : BeginsApart op.text.toList := by cases op <;> decide
    cases isBefore with
    | true => exact (hop.string text).opensBrace
    | false =>
      have hmem : target.layout ∈ (Expr.update span op false target).layout.nodes :=
        Layout.mem_nodes_of_mem_inner (Layout.mem_inner_of_mem_parts (.head _))
      have htext : opensBrace text.toList = target.opensObject :=
        opensBrace_target htarget (hin rfl) (hstands.opened.of_mem hmem) fun hne =>
          (hstands.wellFormed hne).of_mem hmem
      exact (opensBrace_string_append text hop.opensBrace).trans htext
  | unary span op operand =>
    obtain ⟨text, -, rfl⟩ := Emit.runFrom_bind_pure_eq_ok.1 h
    have hop : BeginsApart op.text.toList := by cases op <;> decide
    exact (BeginsApart.string (hop.string _) _).opensBrace
  | hasPrivate span name right =>
    obtain ⟨text, -, rfl⟩ := Emit.runFrom_bind_pure_eq_ok.1 h
    exact (BeginsApart.string (.string (.string (by decide) _) _) _).opensBrace
  | sequence span parts =>
    cases parts with
    | nil =>
      cases h
      exact (by decide : opensBrace "".toList = false)
    | cons first parts => cases hleft
  | await span operand =>
    obtain ⟨text, -, rfl⟩ := Emit.runFrom_bind_pure_eq_ok.1 h
    exact (BeginsApart.string (by decide) _).opensBrace
  | yield span isDelegate operand =>
    have hword : BeginsApart (if isDelegate = true then "yield*" else "yield").toList := by
      cases isDelegate <;> decide
    cases operand with
    | none =>
      cases h
      exact hword.opensBrace
    | some operand =>
      obtain ⟨text, -, rfl⟩ := Emit.runFrom_bind_pure_eq_ok.1 h
      exact (BeginsApart.string (hword.string _) _).opensBrace
  | construct span callee types arguments =>
    obtain ⟨text, table₁, -, h⟩ := Emit.runFrom_bind_eq_ok.1 h
    obtain ⟨typesText, table₂, -, h⟩ := Emit.runFrom_bind_eq_ok.1 h
    obtain ⟨texts, -, rfl⟩ := Emit.runFrom_bind_pure_eq_ok.1 h
    simp only [String.append_assoc]
    exact (BeginsApart.string (by decide) _).opensBrace
  | importCall span hasPhase source options =>
    cases hasPhase with
    | true => exact opensBrace_splice_of_not h hin
    | false =>
      obtain ⟨text, table₁, -, h⟩ := Emit.runFrom_bind_eq_ok.1 h
      cases options with
      | none =>
        cases h
        exact (BeginsApart.string (.string (by decide) _) _).opensBrace
      | some options =>
        obtain ⟨optionsText, -, rfl⟩ := Emit.runFrom_bind_pure_eq_ok.1 h
        exact (BeginsApart.string (.string (.string (.string (by decide) _) _) _) _).opensBrace
  | typed span mark inner =>
    cases mark with
    | assertion type =>
      obtain ⟨text, table₁, -, h⟩ := Emit.runFrom_bind_eq_ok.1 h
      obtain ⟨typeText, -, rfl⟩ := Emit.runFrom_bind_pure_eq_ok.1 h
      exact (BeginsApart.string (.string (.string (by decide) _) _) _).opensBrace
    | _ => cases hleft
  | markup m => exact (beginsApart_of_emitMarkup h).opensBrace
  | _ => cases hleft

end

/-- The code of an expression begins with a brace exactly if an object stands at its left end. -/
theorem opensBrace_of_emitExpr {env : Env} {table table' : TemplateTable} {code : String}
    {context : Context} {e : Expr}
    (h : (emitExpr context e).runFrom env table = (.ok code, table'))
    (hstands : e.StandsIn env.source) : opensBrace code.toList = e.opensObject := by
  -- The induction goes from left operand to left operand.
  cases hleft : e.left? with
  | none => exact opensBrace_of_left?_eq_none hleft h hstands
  | some left =>
    obtain ⟨context', text, rest, table₁, htext, rfl, hrest⟩ :=
      exists_left_of_emitExpr hleft h hstands.led
    have hlt := Expr.depth_lt_of_left? hleft
    calc opensBrace (text ++ rest).toList
        = opensBrace text.toList := opensBrace_string_append text hrest
      _ = left.opensObject := opensBrace_of_emitExpr htext (hstands.left hleft)
      _ = e.opensObject := (Expr.opensObject_of_left? hleft).symm
termination_by e.depth

end MarkupCompiler
