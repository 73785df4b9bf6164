import Mathlib.Data.List.Forall2
import MarkupCompiler.Proofs.TemplateNames
import MarkupCompiler.Proofs.ValueScope

/-!
# Targets of blocks

The statements of a block first declare a variable for the clone of the template, for each element
with attributes to bind and for each marker. Then they bind the attributes and what is between tags,
through these variables. `block_resolves_each_target_once` says this of any block that is made.

An element gets its variable by the index of its path among the distinct paths of the attributes.
The paths are followed as the list of attributes grows at its end (`distinctPaths_concat`): a path
is added if it leads to another element than the root and is new, so that the paths stand in the
order in which they first occur (`pairwise_distinctPaths`) and the index of a path never changes.
-/

namespace MarkupCompiler

open Syntax Text

variable {env : Env} {table table' : TemplateTable}

/-- The list that a value is, if it is one. -/
def Syntax.PartValue.list? : PartValue → Option ListShape
  | .expr e => e.listShape?
  | .spread _ | .markup _ => none

namespace BindingPoint

/-- The statement that binds an attribute to code: it spreads an object over the target, listens to
an event there or sets a property. -/
def settingText (point : BindingPoint) (target code : String) : String :=
  match point.value, eventName? point.name with
  | .spread _, _ => "_$effect(() => _$spread(" ++ target ++ ", " ++ code ++ "));"
  | _, some event => "_$delegate(" ++ target ++ ", " ++ quote event ++ ", " ++ code ++ ");"
  | _, none =>
    "_$effect(() => _$setProp(" ++ target ++ ", " ++ quote point.name ++ ", " ++ code ++ "));"

/-- The context of the value of an attribute: that of a listener, unless no event has its name. -/
def settingContext (point : BindingPoint) : Context :=
  match point.value, eventName? point.name with
  | .spread _, _ | _, none => .plain
  | _, some _ => .event

end BindingPoint

namespace Emitters

/-! ## Distinct paths -/

/-- The distinct paths stand in the order in which they first occur. -/
theorem pairwise_distinctPaths (paths : List (List Nat)) :
    ((distinctPaths paths).map paths.idxOf).Pairwise (· < ·) := by
  induction paths using List.reverseRecOn with
  | nil => exact .nil
  | append_singleton paths path ih =>
    -- A path that has occurred is found where it was found before.
    have hkept : (distinctPaths paths).map (paths ++ [path]).idxOf =
        (distinctPaths paths).map paths.idxOf :=
      List.map_congr_left fun other hother =>
        List.idxOf_append_of_mem (mem_distinctPaths.1 hother).2
    rw [distinctPaths_concat]
    split
    · rwa [hkept]
    · rename_i hnew
      have hlast : (paths ++ [path]).idxOf path = paths.length := by
        rw [List.idxOf_append_of_notMem fun hmem => hnew (.inr hmem), List.idxOf_cons_self,
          Nat.add_zero]
      rw [List.map_append, hkept, List.map_singleton, hlast]
      refine List.pairwise_append.2 ⟨ih, List.pairwise_singleton _ _, fun i hi j hj => ?_⟩
      obtain ⟨other, hother, rfl⟩ := List.mem_map.1 hi
      rw [List.mem_singleton.1 hj]
      exact List.idxOf_lt_length_of_mem (mem_distinctPaths.1 hother).2

/-- No path is there twice. -/
theorem nodup_distinctPaths (paths : List (List Nat)) : (distinctPaths paths).Nodup :=
  .of_map _ ((pairwise_distinctPaths paths).imp Nat.ne_of_lt)

/-! ## Targets -/

/-- Elements have different variables. -/
theorem targetName_injective : Function.Injective targetName :=
  numbered_injective _

/-- Markers have different variables. -/
theorem markerName_injective : Function.Injective markerName :=
  numbered_injective _

/-- Two names are different if their second characters are: the variables of the root, of elements
and of markers are told apart by them. -/
theorem ne_of_second {first second : String} (h : first.toList[1]? ≠ second.toList[1]?) :
    first ≠ second := by
  rintro rfl
  exact h rfl

/-- No element has the variable of the clone. -/
theorem targetName_ne_root (index : Nat) : targetName index ≠ "_root$" :=
  ne_of_second (by simp [targetName])

/-- Nor has a marker. -/
theorem markerName_ne_root (index : Nat) : markerName index ≠ "_root$" :=
  ne_of_second (by simp [markerName])

/-- No marker has the variable of an element. -/
theorem targetName_ne_markerName (k i : Nat) : targetName k ≠ markerName i :=
  ne_of_second (by simp [targetName, markerName])

variable {paths : List (List Nat)}

/-- Only the empty path leads to the clone. -/
theorem targetOf_eq_root_iff {path : List Nat} : targetOf paths path = "_root$" ↔ path = [] := by
  unfold targetOf
  split
  · rename_i hroot
    simp [List.isEmpty_iff.1 hroot]
  · rename_i hroot
    simp [targetName_ne_root, List.isEmpty_iff.not.1 hroot]

/-- A path that does not lead to the root is found at one index, which is that of its variable. -/
theorem exists_targetOf_eq (hnodup : paths.Nodup) {path : List Nat} (hpath : path ≠ [])
    (hmem : path ∈ paths) :
    ∃ k, targetOf paths path = targetName k ∧ ∀ j, paths[j]? = some path ↔ j = k := by
  refine ⟨paths.idxOf path, if_neg (List.isEmpty_iff.not.2 hpath), fun j => ?_⟩
  rw [← List.getElem?_idxOf hmem, eq_comm,
    List.getElem?_inj (List.idxOf_lt_length_of_mem hmem) hnodup, eq_comm]

/-- Elements with the same variable are at the same path. -/
theorem targetOf_inj {first second : List Nat} (hfirst : first ≠ [] → first ∈ paths) :
    targetOf paths first = targetOf paths second ↔ first = second := by
  refine ⟨fun h => ?_, fun h => h ▸ rfl⟩
  by_cases hroot : first = []
  · have hsecond : targetOf paths second = "_root$" := h ▸ targetOf_eq_root_iff.2 hroot
    rw [hroot, targetOf_eq_root_iff.1 hsecond]
  · have hsecond : second ≠ [] := fun hsecond =>
      hroot (targetOf_eq_root_iff.1 (h.trans (targetOf_eq_root_iff.2 hsecond)))
    -- Both variables are numbered, and the index of a path that is found tells the path.
    unfold targetOf at h
    rw [if_neg (List.isEmpty_iff.not.2 hroot), if_neg (List.isEmpty_iff.not.2 hsecond)] at h
    exact (List.idxOf_inj (hfirst hroot)).1 (targetName_injective h)

/-! ## Declarations -/

/-- The statement that declares a variable. -/
def declaration (name value : String) : String := "const " ++ name ++ " = " ++ value ++ ";"

/-- A statement declares a variable if it begins with `const`, the variable and an equals sign. -/
def Declares (name statement : String) : Prop :=
  ("const " ++ name ++ " = ").toList <+: statement.toList

/-- The variables that a block declares, with their values: the clone of the template, the elements
at given paths, and the markers with given texts. -/
def blockVariables (template : String) (paths : List (List Nat)) (markers : List String) :
    List (String × String) :=
  ("_root$", "_$clone(" ++ template ++ ")")
    :: (paths.zipIdx.map (fun entry => (targetName entry.2, "_root$" ++ pathSteps entry.1))
    ++ markers.zipIdx.map (fun entry =>
      (markerName entry.2, "_$findMarker(_root$, " ++ quote entry.1 ++ ")")))

/-- A name without blanks is what stands before the equals sign. -/
theorem takeWhile_name {name : String} (hname : ' ' ∉ name.toList) (rest : List Char) :
    (name.toList ++ (" = ".toList ++ rest)).takeWhile (· != ' ') = name.toList := by
  have hinside : ∀ c ∈ name.toList, (c != ' ') = true := fun c hc =>
    bne_iff_ne.2 fun hblank => hname (hblank ▸ hc)
  rw [List.takeWhile_append_of_pos hinside]
  simp

/-- A declaration declares its own variable alone. -/
theorem declares_declaration_iff {name other : String} (hname : ' ' ∉ name.toList)
    (hother : ' ' ∉ other.toList) (value : String) :
    Declares name (declaration other value) ↔ name = other := by
  unfold Declares declaration
  simp only [String.toList_append, List.append_assoc, List.prefix_append_right_inj]
  constructor
  · rintro ⟨rest, hrest⟩
    -- Both names end at the first blank.
    have hnames := congrArg (List.takeWhile (· != ' ')) hrest
    rw [List.append_assoc, takeWhile_name hname, takeWhile_name hother] at hnames
    exact String.toList_inj.1 hnames
  · rintro rfl
    simp

/-- A statement that begins with another letter than `const` declares nothing. -/
theorem not_declares_of_head? {name statement : String} (h : statement.toList.head? ≠ some 'c') :
    ¬ Declares name statement := by
  rintro ⟨rest, hrest⟩
  exact h (hrest ▸ by simp)

/-- The clone is declared with its template. -/
theorem declaration_root (template : String) :
    declaration "_root$" ("_$clone(" ++ template ++ ")") =
      "const _root$ = _$clone(" ++ template ++ ");" := by
  have hopen : "const _root$ = _$clone(" = "const " ++ "_root$" ++ " = " ++ "_$clone(" := by decide
  have hclose : ");" = ")" ++ ";" := by decide
  rw [declaration, hopen, hclose]
  simp only [String.append_assoc]

/-- An element is declared with its path. -/
theorem declaration_target (path : List Nat) (index : Nat) :
    declaration (targetName index) ("_root$" ++ pathSteps path) = targetLine path index := by
  have hroot : " = _root$" = " = " ++ "_root$" := by decide
  rw [declaration, targetLine, hroot]
  simp only [String.append_assoc]

/-- A marker is declared with its text. -/
theorem declaration_marker (point : BindingPoint) (index : Nat) :
    declaration (markerName index) ("_$findMarker(_root$, " ++ quote point.markerId ++ ")") =
      searchLine point index := by
  have hopen : " = _$findMarker(_root$, " = " = " ++ "_$findMarker(_root$, " := by decide
  have hclose : ");" = ")" ++ ";" := by decide
  rw [declaration, searchLine, hopen, hclose]
  simp only [String.append_assoc]

/-- The variables of a block: the clone, its elements and its markers. -/
theorem map_fst_blockVariables (template : String) (paths : List (List Nat))
    (markers : List String) :
    (blockVariables template paths markers).map Prod.fst =
      "_root$" :: ((List.range paths.length).map targetName ++
        (List.range markers.length).map markerName) := by
  simp [blockVariables, List.range_eq_range', ← List.zipIdx_map_snd, Function.comp_def]

/-- A number adds no blank to a name. -/
theorem not_mem_numbered {stem : String} (hstem : ' ' ∉ stem.toList) (index : Nat) :
    ' ' ∉ (stem ++ toString index).toList := by
  rw [String.toList_append, List.mem_append]
  rintro (hmem | hmem)
  · exact hstem hmem
  · rw [Nat.toString_eq_repr, Nat.toList_repr] at hmem
    exact absurd (Nat.isDigit_of_mem_toDigits (by decide) (by decide) hmem) (by decide)

/-- The variables of a block are written without blanks. -/
theorem not_mem_of_mem_blockVariables {template : String} {markers : List String}
    {entry : String × String} (h : entry ∈ blockVariables template paths markers) :
    ' ' ∉ entry.1.toList := by
  have hname := List.mem_map_of_mem (f := Prod.fst) h
  rw [map_fst_blockVariables, List.mem_cons, List.mem_append] at hname
  rcases hname with hname | hname | hname
  · rw [hname]
    decide
  · obtain ⟨index, -, hname⟩ := List.mem_map.1 hname
    rw [← hname]
    exact not_mem_numbered (by decide) index
  · obtain ⟨index, -, hname⟩ := List.mem_map.1 hname
    rw [← hname]
    exact not_mem_numbered (by decide) index

/-- The variables of a block are distinct. -/
theorem nodup_blockVariables (template : String) (paths : List (List Nat)) (markers : List String) :
    ((blockVariables template paths markers).map Prod.fst).Nodup := by
  rw [map_fst_blockVariables, List.nodup_cons, List.nodup_append]
  refine ⟨?_, List.nodup_range.map targetName_injective, List.nodup_range.map markerName_injective,
    ?_⟩
  · simp [targetName_ne_root, markerName_ne_root]
  · intro target htarget marker hmarker
    obtain ⟨k, -, rfl⟩ := List.mem_map.1 htarget
    obtain ⟨i, -, rfl⟩ := List.mem_map.1 hmarker
    exact targetName_ne_markerName k i

section Declared

variable {template : String} {paths : List (List Nat)} {markers others : List String}
  (hothers : ∀ other ∈ others, ∀ name, ¬ Declares name other) {name : String}
  (hname : name ∈ (blockVariables template paths markers).map Prod.fst)

include hothers hname

/-- The statements of a block declare its variables in their order, if those behind the declarations
declare nothing. -/
theorem exists_declares_iff (i : Nat) :
    (∃ statement, ((blockVariables template paths markers).map (fun entry =>
      declaration entry.1 entry.2) ++ others)[i]? = some statement ∧ Declares name statement) ↔
      ((blockVariables template paths markers).map Prod.fst)[i]? = some name := by
  obtain ⟨own, hown, rfl⟩ := List.mem_map.1 hname
  have hblank := not_mem_of_mem_blockVariables hown
  rw [List.getElem?_append, List.length_map, List.getElem?_map, List.getElem?_map]
  -- The declarations come first, so that the index says whether a statement is one.
  split
  · rename_i hi
    have hentry := List.getElem?_eq_getElem hi
    have hdeclares := declares_declaration_iff hblank
      (not_mem_of_mem_blockVariables (List.mem_of_getElem? hentry))
    rw [hentry]
    simp [hdeclares, eq_comm]
  · rename_i hi
    rw [List.getElem?_eq_none (Nat.le_of_not_lt hi)]
    constructor
    · rintro ⟨statement, hstatement, hdeclares⟩
      exact absurd hdeclares (hothers statement (List.mem_of_getElem? hstatement) _)
    · intro h
      cases h

/-- Each variable of a block is declared by one of its statements. -/
theorem existsUnique_declares :
    ∃! i : Nat, ∃ statement, ((blockVariables template paths markers).map (fun entry =>
      declaration entry.1 entry.2) ++ others)[i]? = some statement ∧ Declares name statement := by
  obtain ⟨i, hi⟩ := List.getElem?_of_mem hname
  have hlt := (List.getElem?_eq_some_iff.1 hi).1
  refine ⟨i, (exists_declares_iff hothers hname i).2 hi, fun j hj => ?_⟩
  have hj := (exists_declares_iff hothers hname j).1 hj
  exact ((List.getElem?_inj hlt (nodup_blockVariables _ _ _)).1 (hi.trans hj.symm)).symm

end Declared

/-! ## Bindings -/

/-- A statement binds the attribute at a point of a target to the code of its value. -/
def BindsAttribute (g : Emitters) (env : Env) (target : String) (point : BindingPoint)
    (statement : String) : Prop :=
  ∃ table table' code,
    (g.partValue point.settingContext point.value).runFrom env table = (.ok code, table') ∧
      statement = point.settingText target code

/-- A statement binds what is between tags at a marker: a list by a helper of its own, and anything
else by an insertion before the marker, which is removed if the value cannot change. -/
def BindsContent (g : Emitters) (env : Env) (marker : String) (value : PartValue)
    (statement : String) : Prop :=
  ∃ table table' code,
    match value.list? with
    | some list =>
      (g.expr .reactive list.array).runFrom env table = (.ok code, table') ∧
        IsListCall marker code statement
    | none =>
      (g.partValue .reactive value).runFrom env table = (.ok code, table') ∧
        statement = "_$insert(" ++ marker ++ ".parentNode, " ++ code ++ ", " ++ marker ++ ");"
          ++ if mayChange value then "" else " " ++ marker ++ ".remove();"

section Bindings

variable {g : Emitters} {target marker statement : String} {point : BindingPoint}
  {value : PartValue}

/-- An attribute is bound by one statement around the code of its value. -/
theorem setting_eq : g.setting target point = do
    let code ← g.partValue point.settingContext point.value
    return point.settingText target code := by
  unfold setting BindingPoint.settingContext BindingPoint.settingText
  -- An object that is spread is not a listener, whatever name stands at the point.
  cases point.value <;> cases eventName? point.name <;> rfl

/-- The statement that is emitted for an attribute binds it. -/
theorem bindsAttribute_of_setting
    (h : (g.setting target point).runFrom env table = (.ok statement, table')) :
    g.BindsAttribute env target point statement := by
  rw [setting_eq] at h
  obtain ⟨code, hcode, rfl⟩ := Emit.runFrom_bind_pure_eq_ok.1 h
  exact ⟨table, _, code, hcode, rfl⟩

/-- The statement that inserts a value binds it. -/
theorem bindsContent_of_insertion (hvalue : value.list? = none)
    (h : (g.insertion marker value).runFrom env table = (.ok statement, table')) :
    g.BindsContent env marker value statement := by
  obtain ⟨code, hcode, rfl⟩ := Emit.runFrom_bind_pure_eq_ok.1 h
  unfold BindsContent
  rw [hvalue]
  exact ⟨table, _, code, hcode, rfl⟩

/-- The statement that is emitted for a value between tags binds it. -/
theorem bindsContent_of_contentBinding
    (h : (g.contentBinding marker value).runFrom env table = (.ok statement, table')) :
    g.BindsContent env marker value statement := by
  cases value with
  | expr e =>
    unfold contentBinding at h
    dsimp only at h
    cases hlist : e.listShape? with
    | none =>
      rw [hlist] at h
      exact bindsContent_of_insertion hlist h
    | some list =>
      rw [hlist] at h
      obtain ⟨array, table₁, harray, hcall⟩ := isListCall_of_listBinding h
      unfold BindsContent
      rw [show (PartValue.expr e).list? = some list from hlist]
      exact ⟨table, table₁, array, harray, hcall⟩
  | spread e => exact bindsContent_of_insertion rfl h
  | markup m => exact bindsContent_of_insertion rfl h

/-- A statement that binds an attribute declares nothing. -/
theorem BindsAttribute.not_declares (h : g.BindsAttribute env target point statement)
    (name : String) : ¬ Declares name statement := by
  obtain ⟨_, _, code, -, rfl⟩ := h
  refine not_declares_of_head? ?_
  unfold BindingPoint.settingText
  split <;> simp

/-- A statement that binds what is between tags declares nothing. -/
theorem BindsContent.not_declares (h : g.BindsContent env marker value statement)
    (name : String) : ¬ Declares name statement := by
  obtain ⟨_, _, code, h⟩ := h
  refine not_declares_of_head? ?_
  split at h
  · obtain ⟨-, helper, hhelper, rest, rfl⟩ := h
    rcases List.mem_pair.1 hhelper with rfl | rfl <;> simp
  · obtain ⟨-, rfl⟩ := h
    simp

end Bindings

/-! ## Blocks -/

/-- What stands in a block beside the template and the markers. -/
structure BlockLayout where
  /-- The paths of the elements with variables of their own. -/
  paths : List (List Nat)
  /-- The variable for the element at a path. -/
  target : List Nat → String
  /-- The statements that bind attributes. -/
  settings : List String
  /-- The statements that bind what is between tags. -/
  insertions : List String

namespace BlockLayout

/-- The statements of a block: all variables are declared before the first binding. -/
def statements (layout : BlockLayout) (template : String) (markers : List String) : List String :=
  (blockVariables template layout.paths markers).map (fun entry => declaration entry.1 entry.2)
    ++ (layout.settings ++ layout.insertions ++ ["return _root$;"])

/-- A block binds attributes and contents in their order, and each of them through a variable that
is declared once. -/
structure Resolves (layout : BlockLayout) (g : Emitters) (env : Env) (template : String)
    (attributes contents : List BindingPoint) : Prop where
  /-- No path has two variables. -/
  nodup : layout.paths.Nodup
  /-- The paths that have variables are those of the attributes, apart from that of the root. -/
  mem_iff : ∀ path, path ∈ layout.paths ↔ path ≠ [] ∧ ∃ point ∈ attributes, point.path = path
  /-- The paths stand in the order in which the attributes first have them. -/
  ordered : (layout.paths.map (attributes.map BindingPoint.path).idxOf).Pairwise (· < ·)
  /-- The attributes with the empty path, and no others, are bound at the root. -/
  root_iff : ∀ point ∈ attributes, layout.target point.path = "_root$" ↔ point.path = []
  /-- Any other attribute is bound through the one variable for its path. -/
  exists_index : ∀ point ∈ attributes, point.path ≠ [] → ∃ k : Nat,
    layout.target point.path = targetName k ∧ ∀ j : Nat, layout.paths[j]? = some point.path ↔ j = k
  /-- Two attributes are bound through one variable exactly if they have the same path. -/
  target_inj : ∀ first ∈ attributes, ∀ second ∈ attributes,
    layout.target first.path = layout.target second.path ↔ first.path = second.path
  /-- There is one statement for each attribute. -/
  settings : List.Forall₂ (fun point => g.BindsAttribute env (layout.target point.path) point)
    attributes layout.settings
  /-- There is one statement for each point between tags, at the marker with its index. -/
  insertions : List.Forall₂ (fun entry => g.BindsContent env (markerName entry.2) entry.1.value)
    contents.zipIdx layout.insertions
  /-- Each of the variables is declared by one statement. -/
  declared : ∀ name, name = "_root$" ∨ (∃ k < layout.paths.length, name = targetName k) ∨
      (∃ i < contents.length, name = markerName i) →
    ∃! i : Nat, ∃ statement,
      (layout.statements template (contents.map BindingPoint.markerId))[i]? = some statement ∧
        Declares name statement

end BlockLayout

/-- The layout of the block that binds points with given statements. -/
def blockLayout (points : List BindingPoint) (settings insertions : List String) : BlockLayout where
  paths := distinctPaths ((points.filter BindingPoint.isAttribute).map BindingPoint.path)
  target :=
    targetOf (distinctPaths ((points.filter BindingPoint.isAttribute).map BindingPoint.path))
  settings := settings
  insertions := insertions

section

variable {g : Emitters} {template : String} {points : List BindingPoint}
  {settings insertions : List String}

/-- A block that is made has the statements of its layout, and binds each point. -/
theorem exists_statements_of_pointBindings {block : String}
    (h : (g.pointBindings template points).runFrom env table = (.ok block, table')) :
    ∃ settings insertions,
      block = blockText ((blockLayout points settings insertions).statements template
        ((points.filter (!·.isAttribute)).map BindingPoint.markerId)) ∧
      List.Forall₂ (fun point => g.BindsAttribute env
        ((blockLayout points settings insertions).target point.path) point)
        (points.filter BindingPoint.isAttribute) settings ∧
      List.Forall₂ (fun entry => g.BindsContent env (markerName entry.2) entry.1.value)
        (points.filter (!·.isAttribute)).zipIdx insertions := by
  rw [pointBindings_eq] at h
  obtain ⟨settings, table₁, hsettings, h⟩ := Emit.runFrom_bind_eq_ok.1 h
  obtain ⟨insertions, hinsertions, rfl⟩ := Emit.runFrom_bind_pure_eq_ok.1 h
  -- The bindings are those of the two runs; it remains to read the lines before them as
  -- declarations.
  refine ⟨settings, insertions, congrArg blockText ?_,
    (Emit.forall₂_of_runFrom_mapM hsettings).imp fun _ _ ⟨_, _, h⟩ => bindsAttribute_of_setting h,
    (Emit.forall₂_of_runFrom_mapM hinsertions).imp fun _ _ ⟨_, _, h⟩ =>
      bindsContent_of_contentBinding h⟩
  simp only [BlockLayout.statements, blockLayout, blockVariables, List.zipIdx_map, List.map_cons,
    List.map_append, List.map_map, Function.comp_def, Prod.map, id, declaration_root,
    declaration_target, declaration_marker, List.cons_append, List.nil_append, List.append_assoc]

/-- If the statements of a layout bind each point, each point is bound through a variable that is
declared once. -/
theorem resolves_blockLayout
    (hsettings : List.Forall₂ (fun point => g.BindsAttribute env
      ((blockLayout points settings insertions).target point.path) point)
      (points.filter BindingPoint.isAttribute) settings)
    (hinsertions : List.Forall₂ (fun entry =>
      g.BindsContent env (markerName entry.2) entry.1.value)
      (points.filter (!·.isAttribute)).zipIdx insertions) :
    (blockLayout points settings insertions).Resolves g env template
      (points.filter BindingPoint.isAttribute) (points.filter (!·.isAttribute)) := by
  have hmem : ∀ point ∈ points.filter BindingPoint.isAttribute, point.path ≠ [] →
      point.path ∈ (blockLayout points settings insertions).paths := fun point hpoint hpath =>
    mem_distinctPaths.2 ⟨hpath, List.mem_map_of_mem hpoint⟩
  -- Only the lines for variables declare one, so each is declared once.
  have hothers : ∀ other ∈ settings ++ insertions ++ ["return _root$;"], ∀ name,
      ¬ Declares name other := by
    simp only [List.forall_mem_append, List.forall_mem_singleton]
    refine ⟨⟨fun line hline => ?_, fun line hline => ?_⟩, fun _ => ?_⟩
    · obtain ⟨_, _, hbinds⟩ := Emit.exists_of_forall₂ hsettings line hline
      exact hbinds.not_declares
    · obtain ⟨_, _, hbinds⟩ := Emit.exists_of_forall₂ hinsertions line hline
      exact hbinds.not_declares
    · exact not_declares_of_head? (by decide)
  exact {
    nodup := nodup_distinctPaths _
    mem_iff := fun path => by
      rw [show path ∈ (blockLayout points settings insertions).paths ↔ _ from mem_distinctPaths,
        List.mem_map]
    ordered := pairwise_distinctPaths _
    root_iff := fun point _ => targetOf_eq_root_iff
    exists_index := fun point hpoint hpath =>
      exists_targetOf_eq (nodup_distinctPaths _) hpath (hmem point hpoint hpath)
    target_inj := fun first hfirst second _ => targetOf_inj (hmem first hfirst)
    settings := hsettings
    insertions := hinsertions
    declared := fun name hname => existsUnique_declares hothers (by
      rw [map_fst_blockVariables, List.length_map]
      simpa [eq_comm] using hname) }

end

/-- The block of a template and points of it declares variables for the clone, for the elements at
the distinct paths of the attributes in the order in which these first occur, and for the markers.
After all of these come one statement for each attribute, one for each point between tags, and the
clone is returned. Each statement uses the variable of its element or marker, and no variable is
declared twice. -/
theorem block_resolves_each_target_once (g : Emitters) (env : Env) (template block : String)
    (points : List BindingPoint) (table table' : TemplateTable)
    (h : (g.pointBindings template points).runFrom env table = (.ok block, table')) :
    ∃ layout : BlockLayout,
      block = blockText (layout.statements template
        ((points.filter (!·.isAttribute)).map BindingPoint.markerId)) ∧
      layout.Resolves g env template (points.filter BindingPoint.isAttribute)
        (points.filter (!·.isAttribute)) := by
  obtain ⟨settings, insertions, hblock, hsettings, hinsertions⟩ :=
    exists_statements_of_pointBindings h
  exact ⟨_, hblock, resolves_blockLayout hsettings hinsertions⟩

/-- Attributes of the root and of two of its children, with two points between tags in their midst,
of which the first has no marker. -/
def samplePoints : List BindingPoint :=
  [⟨[1], .attribute (some "title"), .expr (.ident ⟨0, 1⟩ "a")⟩,
    ⟨[], .content none, .expr (.ident ⟨0, 1⟩ "b")⟩,
    ⟨[], .attribute (some "onClick"), .expr (.ident ⟨0, 1⟩ "c")⟩,
    ⟨[0, 2], .attribute none, .spread (.ident ⟨0, 1⟩ "d")⟩,
    ⟨[0], .content (some "#0"), .expr (.ident ⟨0, 1⟩ "e")⟩,
    ⟨[1], .attribute (some "id"), .expr (.ident ⟨0, 1⟩ "f")⟩]

/-- The block that binds these points. -/
def sampleBlock : String :=
  "  const _root$ = _$clone(_tmpl$0);\n" ++
  "  const _el$0 = _root$.children[1];\n" ++
  "  const _el$1 = _root$.children[0].children[2];\n" ++
  "  const _m$0 = _$findMarker(_root$, \"\");\n" ++
  "  const _m$1 = _$findMarker(_root$, \"#0\");\n" ++
  "  _$effect(() => _$setProp(_el$0, \"title\", a));\n" ++
  "  _$delegate(_root$, \"click\", c);\n" ++
  "  _$effect(() => _$spread(_el$1, d));\n" ++
  "  _$effect(() => _$setProp(_el$0, \"id\", f));\n" ++
  "  _$insert(_m$0.parentNode, b, _m$0);\n" ++
  "  _$insert(_m$1.parentNode, e, _m$1);\n" ++
  "  return _root$;\n"

/-- The two attributes of one child share its variable. -/
theorem block_resolves_each_target_once_sample :
    (emitters.pointBindings "_tmpl$0" samplePoints).runFrom ⟨[], {}⟩ {} = (.ok sampleBlock, {}) ∧
      ∃ layout : BlockLayout,
        sampleBlock = blockText (layout.statements "_tmpl$0" ["", "#0"]) ∧
        layout.Resolves emitters ⟨[], {}⟩ "_tmpl$0" (samplePoints.filter BindingPoint.isAttribute)
          (samplePoints.filter (!·.isAttribute)) := by
  have hrun : (emitters.pointBindings "_tmpl$0" samplePoints).runFrom ⟨[], {}⟩ {} =
      (.ok sampleBlock, {}) := rfl
  exact ⟨hrun, block_resolves_each_target_once emitters ⟨[], {}⟩ "_tmpl$0" sampleBlock samplePoints
    {} {} hrun⟩

end Emitters

end MarkupCompiler
