import MarkupCompiler.Proofs.Agreement
import MarkupCompiler.Proofs.Rewriting

/-!
# Values move into a function of their own

On the client an element with parts becomes a call of a function, which is neither asynchronous nor
a generator. The code of its values stands in the block of that function, and not in the function
around the markup (`values_in_plain_function`). A value that waits or yields, as it may where the
markup stands, is moved there too. There is a module with such a value that compiles to code that
cannot be read (`awaiting_markup_breaks`).
-/

namespace MarkupCompiler

open Syntax Grammar Text

/-! ## Code in a line -/

/-- A text stands somewhere in another. -/
def StandsIn (part whole : String) : Prop := ∃ before after, whole = before ++ part ++ after

/-- What stands in a text stands in the text with more after it. -/
theorem StandsIn.append_right {part whole : String} (h : StandsIn part whole) (rest : String) :
    StandsIn part (whole ++ rest) := by
  obtain ⟨before, after, rfl⟩ := h
  exact ⟨before, after ++ rest, String.append_assoc⟩

/-- What stands in a text stands in the text with more before it. -/
theorem StandsIn.append_left {part whole : String} (h : StandsIn part whole) (front : String) :
    StandsIn part (front ++ whole) := by
  obtain ⟨before, after, rfl⟩ := h
  exact ⟨front ++ before, after, by simp only [String.append_assoc]⟩

/-- What is emitted of the value of a part: the array if the value is a list of items, and otherwise
the value. -/
def Syntax.Part.bound (part : Part) : PartValue :=
  match part.place, part.value with
  | .inContent _, .expr e =>
    match e.listShape? with
    | some list => .expr list.array
    | none => .expr e
  | _, value => value

/-- A text is code of a value, in some context and from some table of templates. -/
def CodeOf (env : Env) (value : PartValue) (code : String) : Prop :=
  ∃ c table table', (emitters.partValue c value).runFrom env table = (.ok code, table')

/-! ## Runs -/

/-- Each result of a computation has a property, from any table and in any environment. -/
def Emit.Ensures {α : Type} (P : α → Prop) (p : Emit α) : Prop :=
  ∀ env table a table', p.runFrom env table = (.ok a, table') → P a

/-- A value with a property ensures it. -/
theorem Emit.ensures_pure {α : Type} {P : α → Prop} {a : α} (h : P a) :
    Emit.Ensures P (pure a : Emit α) := by
  intro env table b table' hrun
  cases hrun
  exact h

/-- A computation ensures what its continuation does for every intermediate result. -/
theorem Emit.ensures_bind {α β : Type} {P : β → Prop} (p : Emit α) {f : α → Emit β}
    (h : ∀ a, Emit.Ensures P (f a)) : Emit.Ensures P (p >>= f) := by
  intro env table b table' hrun
  obtain ⟨a, table₁, -, hf⟩ := Emit.runFrom_bind_eq_ok.1 hrun
  exact h a env table₁ b table' hf

/-- A computation that goes on from a result that may be missing ensures what it does in both
cases. -/
theorem Emit.ensures_bind_option {α β : Type} {P : β → Prop} (p : Emit (Option α))
    {f : Option α → Emit β} (hnone : Emit.Ensures P (f none))
    (hsome : ∀ a, Emit.Ensures P (f (some a))) : Emit.Ensures P (p >>= f) := by
  refine Emit.ensures_bind p fun a? => ?_
  cases a? with
  | none => exact hnone
  | some a => exact hsome a

section

variable {env : Env} {table table' : TemplateTable}

/-! ## Statements that bind a part -/

variable {part : Part} {marker line : String}

/-- The statement that binds an attribute has the code of its value in it. -/
theorem exists_code_of_attributeBinding {target line : String}
    (h : (emitters.attributeBinding target part).runFrom env table = (.ok line, table')) :
    ∃ code, CodeOf env part.value code ∧ StandsIn code line := by
  obtain ⟨path, place, value⟩ := part
  unfold Emitters.attributeBinding Emitters.setting at h
  dsimp only [Part.point] at h
  split at h
  · obtain ⟨code, hcode, rfl⟩ := Emit.runFrom_bind_pure_eq_ok.1 h
    exact ⟨code, ⟨.plain, table, _, hcode⟩, _, _, rfl⟩
  · split at h
    · obtain ⟨code, hcode, rfl⟩ := Emit.runFrom_bind_pure_eq_ok.1 h
      exact ⟨code, ⟨.event, table, _, hcode⟩, _, _, rfl⟩
    · obtain ⟨code, hcode, rfl⟩ := Emit.runFrom_bind_pure_eq_ok.1 h
      exact ⟨code, ⟨.plain, table, _, hcode⟩, _, _, rfl⟩

/-- The statement that inserts a value has its code in it. -/
theorem exists_code_of_insertion {value : PartValue}
    (h : (emitters.insertion marker value).runFrom env table = (.ok line, table')) :
    ∃ code, CodeOf env value code ∧ StandsIn code line := by
  obtain ⟨code, hcode, rfl⟩ := Emit.runFrom_bind_pure_eq_ok.1 h
  have hcall : StandsIn code ("_$insert(" ++ marker ++ ".parentNode, " ++ code) :=
    ⟨_, "", by rw [String.append_empty]⟩
  exact ⟨code, ⟨.reactive, table, _, hcode⟩,
    (((hcall.append_right _).append_right _).append_right _).append_right _⟩

/-- A statement binds the items of an array at a marker: it calls a helper for lists, with the place
of the marker and the array first. -/
def IsListCall (marker array statement : String) : Prop :=
  ∃ helper ∈ ["_$mapArray", "_$mapArrayKeyed"], ∃ rest,
    statement = helper ++ ("(" ++ marker ++ ".parentNode, " ++ marker ++ ", " ++ array ++ ", ")
      ++ rest ++ ");"

/-- The statement that binds a list calls a helper for lists, with the code of the array. -/
theorem Emitters.isListCall_of_listBinding {g : Emitters} {list : ListShape}
    (h : (g.listBinding marker list).runFrom env table = (.ok line, table')) :
    ∃ array table₁, (g.expr .reactive list.array).runFrom env table = (.ok array, table₁) ∧
      IsListCall marker array line := by
  obtain ⟨array, table₁, harray, hrest⟩ := Emit.runFrom_bind_eq_ok.1 h
  refine ⟨array, table₁, harray, ?_⟩
  have hunkeyed : ∀ render, IsListCall marker array ("_$mapArray" ++
      ("(" ++ marker ++ ".parentNode, " ++ marker ++ ", " ++ array ++ ", ") ++ render ++ ");") :=
    fun render => ⟨_, by decide, render, rfl⟩
  have hkeyed : ∀ render params key, IsListCall marker array ("_$mapArrayKeyed" ++
      ("(" ++ marker ++ ".parentNode, " ++ marker ++ ", " ++ array ++ ", ") ++ render ++ ", " ++
        params ++ " => " ++ key ++ ");") := fun render params key =>
    ⟨"_$mapArrayKeyed", by decide, render ++ ", " ++ params ++ " => " ++ key, by
      simp only [String.append_assoc]⟩
  revert hrest
  suffices hensures : Emit.Ensures (IsListCall marker array) _ from
    hensures env table₁ line table'
  dsimp only
  split
  · exact Emit.ensures_bind _ fun callback => Emit.ensures_pure (hunkeyed callback)
  · refine Emit.ensures_bind _ fun params => ?_
    -- However the element is made, its key comes next, and then the statement is put together.
    split
    · exact Emit.ensures_bind _ fun body => Emit.ensures_bind_option _
        (Emit.ensures_pure (hunkeyed _)) fun key => Emit.ensures_pure (hkeyed _ params key)
    · split
      · exact Emit.ensures_bind _ fun template => Emit.ensures_bind _ fun body =>
          Emit.ensures_bind_option _ (Emit.ensures_pure (hunkeyed _))
            fun key => Emit.ensures_pure (hkeyed _ params key)
      · exact Emit.ensures_bind _ fun block => Emit.ensures_bind _ fun body =>
          Emit.ensures_bind_option _ (Emit.ensures_pure (hunkeyed _))
            fun key => Emit.ensures_pure (hkeyed _ params key)

/-- The statement that binds a list has the code of the array in it. -/
theorem exists_code_of_listBinding {list : ListShape}
    (h : (emitters.listBinding marker list).runFrom env table = (.ok line, table')) :
    ∃ code, CodeOf env (.expr list.array) code ∧ StandsIn code line := by
  obtain ⟨array, table₁, harray, helper, -, rest, rfl⟩ := Emitters.isListCall_of_listBinding h
  have hcall : StandsIn array
      (helper ++ ("(" ++ marker ++ ".parentNode, " ++ marker ++ ", " ++ array ++ ", ")) :=
    StandsIn.append_left ⟨_, _, rfl⟩ helper
  exact ⟨array, ⟨.reactive, table, table₁, harray⟩, (hcall.append_right rest).append_right _⟩

/-- The statement that binds a child has in it the code of what is emitted of its value. -/
theorem exists_code_of_childBinding (hplace : part.isAttribute = false)
    (h : (emitters.childBinding marker part).runFrom env table = (.ok line, table')) :
    ∃ code, CodeOf env part.bound code ∧ StandsIn code line := by
  obtain ⟨path, name | index, value⟩ := part
  · cases hplace
  · cases value with
    | expr e =>
      unfold Emitters.childBinding Emitters.contentBinding at h
      unfold Part.bound
      dsimp only at h ⊢
      cases hlist : e.listShape? with
      | some list =>
        rw [hlist] at h
        exact exists_code_of_listBinding h
      | none =>
        rw [hlist] at h
        exact exists_code_of_insertion h
    | spread e => exact exists_code_of_insertion h
    | markup m => exact exists_code_of_insertion h

/-! ## Blocks -/

/-- An attribute is bound to its value, list or not. -/
theorem Syntax.Part.bound_of_isAttribute (h : part.isAttribute = true) :
    part.bound = part.value := by
  obtain ⟨path, name | index, value⟩ := part
  · rfl
  · cases h

/-- The block that binds parts has for each of them a line with the code of its value in it. -/
theorem exists_lines_of_bindings {template block : String} {parts : List Part}
    (h : (emitters.bindings template parts).runFrom env table = (.ok block, table')) :
    ∃ lines, block = Emitters.blockText lines ∧
      ∀ part ∈ parts, ∃ line ∈ lines, ∃ code, CodeOf env part.bound code ∧ StandsIn code line := by
  rw [Emitters.bindings_eq] at h
  obtain ⟨settings, table₁, hsettings, h⟩ := Emit.runFrom_bind_eq_ok.1 h
  obtain ⟨insertions, hinsertions, rfl⟩ := Emit.runFrom_bind_pure_eq_ok.1 h
  refine ⟨_, rfl, fun part hpart => ?_⟩
  cases hplace : part.isAttribute with
  | true =>
    have hmem : part ∈ parts.filter Part.isAttribute := List.mem_filter.2 ⟨hpart, hplace⟩
    obtain ⟨line, hline, _, _, hrun⟩ :=
      Emit.exists_of_forall₂ (Emit.forall₂_of_runFrom_mapM hsettings).flip part hmem
    rw [Part.bound_of_isAttribute hplace]
    exact ⟨line, by simp [hline], exists_code_of_attributeBinding hrun⟩
  | false =>
    have hmem : part ∈ parts.filter (!·.isAttribute) :=
      List.mem_filter.2 ⟨hpart, by rw [hplace]; rfl⟩
    -- The line of a child names its marker by the index of the child among the children.
    rw [← List.zipIdx_map_fst 0 (parts.filter (!·.isAttribute))] at hmem
    obtain ⟨⟨_, index⟩, hentry, rfl⟩ := List.mem_map.1 hmem
    obtain ⟨line, hline, _, _, hrun⟩ :=
      Emit.exists_of_forall₂ (Emit.forall₂_of_runFrom_mapM hinsertions).flip _ hentry
    exact ⟨line, by simp [hline], exists_code_of_childBinding hplace hrun⟩

/-- The lines of the block that clones a template and binds parts, around the statements that bind
attributes and children. -/
def Emitters.blockLines (template : String) (parts : List Part)
    (settings insertions : List String) : List String :=
  ["const _root$ = _$clone(" ++ template ++ ");"]
    ++ (targetPaths parts).zipIdx.map (fun entry => targetLine entry.1 entry.2)
    ++ (parts.filter (!·.isAttribute)).zipIdx.map (fun entry => markerLine entry.1 entry.2)
    ++ settings ++ insertions ++ ["return _root$;"]

/-- The code of an element with parts on the client: the template of the element is interned, and
then its attributes are bound one after the other. -/
theorem exists_blockLines {e : Element} {code : String} (hcomponent : e.isComponent = false)
    (hstatic : e.isStatic = false) (hclient : env.options.isServer = false)
    (h : (emitMarkup (.element e)).runFrom env table = (.ok code, table')) :
    ∃ settings insertions table₁,
      code = "(() => \x7b\n" ++ Emitters.blockText (Emitters.blockLines
        (table.intern (e.skeleton 0).templateHtml).1 (e.skeleton 0).parts settings insertions) ++
        "\x7d)()" ∧
      (((e.skeleton 0).parts.filter Part.isAttribute).mapM fun part =>
        emitters.attributeBinding
          (Emitters.targetOf (Emitters.targetPaths (e.skeleton 0).parts) part.path) part).runFrom
        env (table.intern (e.skeleton 0).templateHtml).2 = (.ok settings, table₁) := by
  rw [emitMarkup_eq, Emitters.markupText, Emitters.element, hcomponent] at h
  obtain ⟨env', _, henv, h⟩ := Emit.runFrom_bind_eq_ok.1 h
  cases henv
  rw [hclient, hstatic] at h
  obtain ⟨block, hblock, rfl⟩ := Emit.runFrom_bind_pure_eq_ok.1 h
  obtain ⟨template, table₂, htemplate, hbindings⟩ := Emit.runFrom_bind_eq_ok.1 hblock
  cases htemplate
  rw [Emitters.bindings_eq] at hbindings
  obtain ⟨settings, table₃, hsettings, hbindings⟩ := Emit.runFrom_bind_eq_ok.1 hbindings
  obtain ⟨insertions, -, rfl⟩ := Emit.runFrom_bind_pure_eq_ok.1 hbindings
  exact ⟨settings, insertions, table₃, rfl, hsettings⟩

/-! ## Values that suspend the function around them -/

/-- The word with which an expression suspends the function that it stands in. -/
def Syntax.Expr.suspension? : Expr → Option String
  | .await _ _ => some "await "
  | .yield _ _ _ => some "yield"
  | _ => none

/-- A part whose value suspends is emitted as its value, which is no list. -/
theorem Syntax.Part.bound_of_suspension? {e : Expr} {word : String} (hvalue : part.value = .expr e)
    (hword : e.suspension? = some word) : part.bound = .expr e := by
  obtain ⟨path, name | index, value⟩ := part
  · exact hvalue
  · cases hvalue
    unfold Expr.suspension? at hword
    split at hword
    · rfl
    · rfl
    · cases hword

/-- The code of a value that suspends begins with the word for it. -/
theorem CodeOf.exists_of_suspension? {e : Expr} {word code : String}
    (h : CodeOf env (.expr e) code) (hword : e.suspension? = some word) :
    ∃ rest, code = word ++ rest := by
  obtain ⟨c, table, table', h⟩ := h
  have hrun : (emitters.exprText c e).runFrom env table = (.ok code, table') := by
    rw [← emitExpr_eq]
    exact h
  unfold Expr.suspension? at hword
  split at hword
  · cases hword
    obtain ⟨operand, -, rfl⟩ := Emit.runFrom_bind_pure_eq_ok.1 hrun
    exact ⟨operand, rfl⟩
  · rename_i span isDelegate operand
    cases hword
    have hyield : (if isDelegate then "yield*" else "yield") =
        "yield" ++ (if isDelegate then "*" else "") := by
      cases isDelegate <;> rfl
    cases operand with
    | none =>
      cases hrun
      exact ⟨_, hyield⟩
    | some operand =>
      obtain ⟨text, -, rfl⟩ := Emit.runFrom_bind_pure_eq_ok.1 hrun
      refine ⟨(if isDelegate then "*" else "") ++ " " ++ text, ?_⟩
      rw [hyield]
      simp only [String.append_assoc]
  · cases hword

end

/-! ## Elements -/

/-- The code of an element with parts on the client is a call of a function that is neither
asynchronous nor a generator. Each part has a line in its block with the code of the part's value in
it, also when that value suspends the function around it. -/
theorem values_in_plain_function (e : Element) (env : Env) (table table' : TemplateTable)
    (code : String) (hcomponent : e.isComponent = false) (hstatic : e.isStatic = false)
    (hclient : env.options.isServer = false)
    (h : (emitMarkup (.element e)).runFrom env table = (.ok code, table')) :
    ∃ lines, code = "(() => \x7b\n" ++ Emitters.blockText lines ++ "\x7d)()" ∧
      (∀ part ∈ (e.skeleton 0).parts,
        ∃ line ∈ lines, ∃ value, CodeOf env part.bound value ∧ StandsIn value line) ∧
      ∀ part ∈ (e.skeleton 0).parts, ∀ value word, part.value = .expr value →
        value.suspension? = some word → ∃ line ∈ lines, ∃ rest,
          CodeOf env (.expr value) (word ++ rest) ∧ StandsIn (word ++ rest) line := by
  rw [emitMarkup_eq, Emitters.markupText, Emitters.element, hcomponent] at h
  obtain ⟨env', _, henv, h⟩ := Emit.runFrom_bind_eq_ok.1 h
  cases henv
  rw [hclient, hstatic] at h
  obtain ⟨block, hblock, rfl⟩ := Emit.runFrom_bind_pure_eq_ok.1 h
  obtain ⟨template, table₂, -, hbindings⟩ := Emit.runFrom_bind_eq_ok.1 hblock
  obtain ⟨lines, rfl, hlines⟩ := exists_lines_of_bindings hbindings
  refine ⟨lines, rfl, hlines, fun part hpart value word hvalue hword => ?_⟩
  obtain ⟨line, hline, code, hcode, hstands⟩ := hlines part hpart
  rw [Part.bound_of_suspension? hvalue hword] at hcode
  obtain ⟨rest, rfl⟩ := hcode.exists_of_suspension? hword
  exact ⟨line, hline, rest, hcode, hstands⟩

/-- A paragraph with an attribute that waits for its value. -/
def awaitingParagraph : Element :=
  .mk ⟨0, 16⟩ (.plain "p") [.named "a" (.expr (.await ⟨6, 13⟩ (.ident ⟨12, 13⟩ "x")))] []

/-- The paragraph that waits does so in a line of the function's block. -/
theorem values_in_plain_function_awaiting :
    ∃ lines table', (emitMarkup (.element awaitingParagraph)).runFrom ⟨[], {}⟩ {} =
        (.ok ("(() => \x7b\n" ++ Emitters.blockText lines ++ "\x7d)()"), table') ∧
      ∃ line ∈ lines, ∃ rest, StandsIn ("await " ++ rest) line := by
  obtain ⟨code, table', hrun⟩ : ∃ code table',
      (emitMarkup (.element awaitingParagraph)).runFrom ⟨[], {}⟩ {} = (.ok code, table') :=
    ⟨_, _, rfl⟩
  obtain ⟨lines, rfl, -, hsuspends⟩ := values_in_plain_function awaitingParagraph ⟨[], {}⟩ {}
    table' code (by decide) (by decide) (by decide) hrun
  obtain ⟨line, hline, rest, -, hstands⟩ :=
    hsuspends _ (.head _) _ "await " rfl rfl
  exact ⟨lines, table', hrun, line, hline, rest, hstands⟩

/-! ## Code that cannot be read -/

/-- A module with markup that waits for a value, as the function around it may. -/
def awaitingSource : String := "async () => <p a=\x7bawait x\x7d/>"

/-- The code of the module: the function that waits is not the asynchronous one. -/
def awaitingCode : String :=
  "import \x7b template as _$template, clone as _$clone, effect as _$effect, " ++
  "setProp as _$setProp \x7d from \"sprig/dom\";\n" ++
  "const _tmpl$0 = _$template(\"<p></p>\");\n" ++
  "async () => (() => \x7b\n  const _root$ = _$clone(_tmpl$0);\n" ++
  "  _$effect(() => _$setProp(_root$, \"a\", await x));\n  return _root$;\n\x7d)()"

/-- A module whose markup waits for a value compiles, but its code is that of no module, and to
compile it again fails. -/
theorem awaiting_markup_breaks :
    compile awaitingSource "a.jsx" {} = .ok (some awaitingCode) ∧
      (¬ ∃ m, parseModule (FileId.dialect "a.jsx") awaitingCode.toList = .ok m) ∧
      compile awaitingCode "a.jsx" {} ≠ .ok none := by
  -- The three runs are decided by the kernel.
  have hcode : (compile awaitingSource "a.jsx" {}).toOption = some (some awaitingCode) := by
    decide +kernel
  have hunread : (parseModule (FileId.dialect "a.jsx") awaitingCode.toList).toOption.isSome =
      false := by
    decide +kernel
  have hmay : containsMarkup awaitingCode.toList = true := by decide +kernel
  refine ⟨?_, ?_, ?_⟩
  · cases h : compile awaitingSource "a.jsx" {} with
    | error error =>
      rw [h] at hcode
      cases hcode
    | ok outcome =>
      rw [h] at hcode
      cases hcode
      rfl
  · rintro ⟨m, hm⟩
    rw [hm] at hunread
    cases hunread
  · rw [compile_of_containsMarkup "a.jsx" {} hmay]
    cases h : parseModule (FileId.dialect "a.jsx") awaitingCode.toList with
    | error complaints =>
      intro hnone
      cases hnone
    | ok m =>
      rw [h] at hunread
      cases hunread

end MarkupCompiler
