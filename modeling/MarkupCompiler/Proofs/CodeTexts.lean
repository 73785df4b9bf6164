import MarkupCompiler.Proofs.Emission
import MarkupCompiler.Proofs.HelperCalls
import MarkupCompiler.Proofs.PlainTexts

/-!
# Texts and runs that give code

A text is code of a target if the helpers of the target are only called in it (`IsCode`). Code is
put together of code and of texts without dollar signs. The code of markup ends in a bracket
(`IsClosed`), so that it can take the place of markup in the source.

A run gives code if all runs from tables of plain templates do, and leave such tables
(`Emit.Yields`).
-/

namespace MarkupCompiler

open Syntax Text

/-! ## Code -/

/-- A text is code that only calls the helpers of a target. -/
def IsCode (target : Target) (text : String) : Prop := OnlyCalls target text.toList

/-- A text is such code, with a bracket at its end. -/
def IsClosed (target : Target) (text : String) : Prop := ClosedCode target text.toList

section

variable {target : Target} {text : String}

/-- Code after code is code. -/
@[simp] theorem isCode_append {a b : String} (ha : IsCode target a) (hb : IsCode target b) :
    IsCode target (a ++ b) := by
  unfold IsCode
  rw [String.toList_append]
  exact OnlyCalls.append ha hb

/-- A text without dollars is code. -/
@[simp] theorem isCode_of_lacks (h : Lacks '$' text) : IsCode target text := OnlyCalls.of_not_mem h

/-- Code with a bracket at its end is code. -/
theorem IsClosed.isCode (h : IsClosed target text) : IsCode target text := ClosedCode.onlyCalls h

/-- Code in front of a bracket. -/
theorem isClosed_parenthesis (h : IsCode target text) : IsClosed target (text ++ ")") :=
  ⟨text.toList, ')', String.toList_append, by decide, h⟩

/-- Code in front of a text that ends in a bracket. -/
theorem isClosed_append {close : String} (init : String) (hclose : close = init ++ ")")
    (hinit : Lacks '$' init) (h : IsCode target text) : IsClosed target (text ++ close) := by
  rw [hclose, ← String.append_assoc]
  exact isClosed_parenthesis (isCode_append h (OnlyCalls.of_not_mem hinit))

/-- Code in front of a square bracket. -/
theorem isClosed_bracket (h : IsCode target text) : IsClosed target (text ++ "]") :=
  ⟨text.toList, ']', String.toList_append, by decide, h⟩

/-- Code with a separator between its parts. -/
theorem isCode_joinWith {separator : String} (hseparator : Lacks '$' separator)
    {texts : List String} (h : ∀ text ∈ texts, IsCode target text) :
    IsCode target (joinWith separator texts) := by
  induction texts with
  | nil => exact OnlyCalls.nil
  | cons text texts ih =>
    obtain ⟨hfirst, hrest⟩ := List.forall_mem_cons.1 h
    cases texts with
    | nil => exact hfirst
    | cons next texts =>
      exact isCode_append (isCode_append hfirst (isCode_of_lacks hseparator)) (ih hrest)

/-- Parts of code, one after another. -/
theorem isCode_join {texts : List String} (h : ∀ text ∈ texts, IsCode target text) :
    IsCode target (String.join texts) := by
  induction texts with
  | nil => exact OnlyCalls.nil
  | cons text texts ih =>
    obtain ⟨hfirst, hrest⟩ := List.forall_mem_cons.1 h
    rw [String.join_cons]
    exact isCode_append hfirst (ih hrest)

/-- Code between two texts. -/
theorem isCode_enclosed {left right : String} (hleft : IsCode target left)
    (htext : IsCode target text) (hright : Lacks '$' right) :
    IsCode target (left ++ text ++ right) :=
  isCode_append (isCode_append hleft htext) (isCode_of_lacks hright)

/-- Code with a text between its two parts. -/
theorem isCode_separated {a b : String} (ha : IsCode target a) (htext : Lacks '$' text)
    (hb : IsCode target b) : IsCode target (a ++ text ++ b) :=
  isCode_append (isCode_append ha (isCode_of_lacks htext)) hb

/-- Entries in braces are code if the entries are. -/
theorem isCode_braced {entries : List String} (h : ∀ text ∈ entries, IsCode target text) :
    IsCode target (Emitters.braced entries) := by
  have hjoined := isCode_joinWith (by decide : Lacks '$' ", ") h
  unfold Emitters.braced
  split
  · exact isCode_of_lacks (by decide)
  · exact isCode_enclosed (isCode_of_lacks (by decide)) hjoined (by decide)

/-! ### Helpers and variables -/

/-- A text that is found to have helpers only in calls is code. Fixed texts with calls and variables
are. -/
theorem isCode_of_callsOnly (h : callsOnly target 0 text.toList = true) :
    IsCode target text := OnlyCalls.of_callsOnly h

/-- A call of a helper of both targets, up to its bracket. -/
@[simp] theorem isCode_unwrap :
    IsCode target "_$unwrapComponent(" ∧ IsCode target "(_$unwrapProps(" := by
  cases target <;> exact ⟨isCode_of_callsOnly (by decide), isCode_of_callsOnly (by decide)⟩

/-- The fixed texts with calls that stand around the code of blocks and templates. -/
@[simp] theorem isCode_calls :
    IsCode .client "_$effect(() => _$spread(" ∧ IsCode .client "_$effect(() => _$setProp(" ∧
      IsCode .client "_$delegate(" ∧ IsCode .client "_$insert(" ∧
      IsCode .client " = _$findMarker(_root$, " ∧ IsCode .client " = _$template(" ∧
      IsCode .client " = _root$" ∧ IsCode .server "_$ssrAttr(" := by
  refine ⟨?_, ?_, ?_, ?_, ?_, ?_, ?_, ?_⟩ <;> exact isCode_of_callsOnly (by decide)

/-- The variable of an element. -/
theorem isCode_root : IsCode target "_root$" :=
  isCode_of_callsOnly (by cases target <;> decide)

/-- A variable with a number. -/
theorem isCode_numbered {front : String} (index : Nat)
    (h : callsOnly target 0 front.toList = true) : IsCode target (front ++ toString index) :=
  isCode_append (isCode_of_callsOnly h) (isCode_of_lacks (lacks_repr index))

/-- The variable of a template. -/
@[simp] theorem isCode_templateName (index : Nat) : IsCode target (TemplateTable.name index) :=
  isCode_numbered index (by cases target <;> decide)

/-- The variable of an element in a template. -/
@[simp] theorem isCode_targetName (index : Nat) : IsCode target (Emitters.targetName index) :=
  isCode_numbered index (by cases target <;> decide)

/-- The variable of a marker. -/
@[simp] theorem isCode_markerName (index : Nat) : IsCode target (Emitters.markerName index) :=
  isCode_numbered index (by cases target <;> decide)

/-- The variable for a path. -/
theorem isCode_targetOf (paths : List (List Nat)) (path : List Nat) :
    IsCode target (Emitters.targetOf paths path) := by
  unfold Emitters.targetOf
  split
  · exact isCode_root
  · exact isCode_targetName _

end

/-! ## Runs -/

/-- No template of a table has a dollar sign. -/
def TemplateTable.IsPlain (table : TemplateTable) : Prop := ∀ text ∈ table.texts, Lacks '$' text

/-- From a table of plain templates, a computation leaves one and gives a result with a property. -/
def Emit.Yields (env : Env) {α : Type} (P : α → Prop) (p : Emit α) : Prop :=
  ∀ table a table', table.IsPlain → p.runFrom env table = (.ok a, table') → table'.IsPlain ∧ P a

/-- The characters of a slice are those of the text. -/
theorem Text.mem_of_slice {text part : List Char} {span : Span} (h : slice? text span = some part) :
    part ⊆ text := by
  obtain ⟨before, after, rfl, -⟩ := slice?_eq_some.1 h
  exact fun c hc => List.mem_append_right _ (List.mem_append_left _ hc)

namespace Emit.Yields

variable {α β : Type} {env : Env} {P : α → Prop} {Q : β → Prop}

/-- A result with the property. -/
theorem pure {a : α} (h : P a) : Yields env P (Pure.pure a) := by
  intro table b table' htable hrun
  cases hrun
  exact ⟨htable, h⟩

/-- A computation goes on from a result with a property. -/
theorem bind {p : Emit α} {f : α → Emit β} (hp : Yields env P p)
    (hf : ∀ a, P a → Yields env Q (f a)) : Yields env Q (p >>= f) := by
  intro table b table' htable hrun
  obtain ⟨a, table₁, ha, hb⟩ := runFrom_bind_eq_ok.1 hrun
  obtain ⟨htable₁, hresult⟩ := hp table a table₁ htable ha
  exact hf a hresult table₁ b table' htable₁ hb

/-- A computation that looks at the options goes on from those of the run. -/
theorem read {f : Env → Emit β} (hf : Yields env Q (f env)) :
    Yields env Q (MonadReader.read >>= f) := hf

/-- The property of the result may be weakened. -/
theorem mono {R : α → Prop} {p : Emit α} (h : Yields env P p) (himp : ∀ a, P a → R a) :
    Yields env R p := by
  intro table a table' htable hrun
  obtain ⟨htable', hresult⟩ := h table a table' htable hrun
  exact ⟨htable', himp a hresult⟩

/-- A computation that fails gives no result. -/
theorem throw (e : EmitError) : Yields env P (MonadExcept.throw e : Emit α) := by
  intro table a table' _ hrun
  cases hrun

/-- Every result of a list of computations has the property. -/
theorem mapM {f : α → Emit β} {xs : List α} (h : ∀ x ∈ xs, Yields env Q (f x)) :
    Yields env (fun ys => ∀ y ∈ ys, Q y) (xs.mapM f) := by
  induction xs with
  | nil => exact pure nofun
  | cons x xs ih =>
    obtain ⟨hfirst, hrest⟩ := List.forall_mem_cons.1 h
    rw [List.mapM_cons]
    exact hfirst.bind fun y hy => (ih hrest).bind fun ys hys =>
      pure (List.forall_mem_cons.2 ⟨hy, hys⟩)

/-- A template without dollar signs is named. -/
theorem intern {text : String} (h : Lacks '$' text) :
    Yields env (IsCode env.options.target) (internTemplate text) := by
  intro table name table' htable hrun
  rw [runFrom_internTemplate, Prod.mk.injEq, Except.ok.injEq] at hrun
  obtain ⟨rfl, rfl⟩ := hrun
  unfold TemplateTable.intern
  split
  · exact ⟨htable, isCode_templateName _⟩
  · exact ⟨List.forall_mem_append.2 ⟨htable, List.forall_mem_singleton.2 h⟩, isCode_templateName _⟩

/-- Text of the source is one of its slices. -/
theorem slice (span : Span) : Yields env
    (fun text => ∃ part, slice? env.source span = some part ∧ text = String.ofList part)
    (sourceText span) := by
  refine read ?_
  split
  · rename_i part hpart
    exact pure ⟨part, hpart, rfl⟩
  · exact throw _

/-- Text of a plain source is plain. -/
theorem source (hplain : PlainSource env.source) (span : Span) :
    Yields env (Lacks '$') (sourceText span) := by
  refine (slice span).mono ?_
  rintro _ ⟨part, hpart, rfl⟩
  exact lacks_ofList.2 fun hmem => hplain.dollar (mem_of_slice hpart hmem)

/-- The text of a token is code. -/
theorem token (hplain : PlainSource env.source) (span : Span) :
    Yields env (IsCode env.options.target) (tokenText span) := by
  unfold tokenText
  split
  · exact throw _
  · exact (source hplain span).mono fun _ => isCode_of_lacks

end Emit.Yields

end MarkupCompiler
