import Mathlib.Data.List.Basic
import Mathlib.Data.List.Forall2
import Mathlib.Data.List.Induction
import MarkupCompiler.Emit.Block

/-!
# Runs of emitters

What a run of a computation that emits code does, step by step. A run that succeeds is taken apart
with the lemmas `…_eq_ok`: they say from which runs of its parts it came, and through which tables.
The block that binds the parts of a template is such a computation (`Emitters.bindings_eq`). Its
walk over the attributes finds the distinct paths among them, in the order in which they first
occur, and the variable of an element is numbered by the index of its path there
(`Resolution.foldl_add`).
-/

namespace MarkupCompiler

namespace Emit

variable {α β : Type} {env : Env} {table table' : TemplateTable}

/-- `pure` keeps the table. -/
@[simp]
theorem runFrom_pure (a : α) : (pure a : Emit α).runFrom env table = (.ok a, table) := rfl

/-- So does an error. -/
@[simp]
theorem runFrom_throw (e : EmitError) :
    (throw e : Emit α).runFrom env table = (.error e, table) := rfl

/-- A computation with a continuation goes on from the table that it left, unless it failed. -/
theorem runFrom_bind (p : Emit α) (f : α → Emit β) :
    (p >>= f).runFrom env table =
      match p.runFrom env table with
      | (.ok a, table₁) => (f a).runFrom env table₁
      | (.error e, table₁) => (.error e, table₁) := by
  unfold runFrom
  rw [ReaderT.run_bind, ExceptT.run_bind, StateT.run_bind]
  rcases (p.run env).run.run table with ⟨e | a, table₁⟩
  · rfl
  · rfl

/-- A computation with a continuation succeeds if both do, one after the other. -/
theorem runFrom_bind_eq_ok {p : Emit α} {f : α → Emit β} {b : β} :
    (p >>= f).runFrom env table = (.ok b, table') ↔
      ∃ a table₁, p.runFrom env table = (.ok a, table₁) ∧
        (f a).runFrom env table₁ = (.ok b, table') := by
  rw [runFrom_bind]
  rcases p.runFrom env table with ⟨e | a, table₁⟩
  · simp
  · constructor
    · intro h
      exact ⟨a, table₁, rfl, h⟩
    · rintro ⟨_, _, ⟨⟩, h⟩
      exact h

/-- A computation whose result is put in a form succeeds if it does so itself. -/
theorem runFrom_bind_pure_eq_ok {p : Emit α} {f : α → β} {b : β} :
    (p >>= fun a => pure (f a)).runFrom env table = (.ok b, table') ↔
      ∃ a, p.runFrom env table = (.ok a, table') ∧ f a = b := by
  simp only [runFrom_bind_eq_ok, runFrom_pure, Prod.mk.injEq, Except.ok.injEq]
  constructor
  · rintro ⟨a, _, ha, hb, rfl⟩
    exact ⟨a, ha, hb⟩
  · rintro ⟨a, ha, hb⟩
    exact ⟨a, _, ha, hb, rfl⟩

/-- A run over a list succeeds if it does so on the first item and then on the others. -/
theorem runFrom_mapM_cons_eq_ok {f : α → Emit β} {x : α} {xs : List α} {ys : List β} :
    ((x :: xs).mapM f).runFrom env table = (.ok ys, table') ↔
      ∃ y ys₁ table₁, (f x).runFrom env table = (.ok y, table₁) ∧
        (xs.mapM f).runFrom env table₁ = (.ok ys₁, table') ∧ ys = y :: ys₁ := by
  rw [List.mapM_cons]
  simp only [runFrom_bind_eq_ok, runFrom_pure, Prod.mk.injEq, Except.ok.injEq]
  constructor
  · rintro ⟨y, table₁, hy, ys₁, table₂, hys, rfl, rfl⟩
    exact ⟨y, ys₁, table₁, hy, hys, rfl⟩
  · rintro ⟨y, ys₁, table₁, hy, hys, rfl⟩
    exact ⟨y, table₁, hy, ys₁, table', hys, rfl, rfl⟩

/-- A run over two lists, one behind the other, succeeds if it does so on the first list and then on
the second. -/
theorem runFrom_mapM_append_eq_ok {f : α → Emit β} {xs xs' : List α} {ys : List β} :
    ((xs ++ xs').mapM f).runFrom env table = (.ok ys, table') ↔
      ∃ ys₁ ys₂ table₁, (xs.mapM f).runFrom env table = (.ok ys₁, table₁) ∧
        (xs'.mapM f).runFrom env table₁ = (.ok ys₂, table') ∧ ys = ys₁ ++ ys₂ := by
  rw [List.mapM_append]
  simp only [runFrom_bind_eq_ok, runFrom_pure, Prod.mk.injEq, Except.ok.injEq]
  constructor
  · rintro ⟨ys₁, table₁, hys₁, ys₂, table₂, hys₂, rfl, rfl⟩
    exact ⟨ys₁, ys₂, table₁, hys₁, hys₂, rfl⟩
  · rintro ⟨ys₁, ys₂, table₁, hys₁, hys₂, rfl⟩
    exact ⟨ys₁, table₁, hys₁, ys₂, table', hys₂, rfl, rfl⟩

/-- A run over a list gives one result for each item, by a run on the item. -/
theorem forall₂_of_runFrom_mapM {f : α → Emit β} {xs : List α} {ys : List β}
    (h : (xs.mapM f).runFrom env table = (.ok ys, table')) :
    xs.Forall₂ (fun x y => ∃ table₁ table₂, (f x).runFrom env table₁ = (.ok y, table₂)) ys := by
  induction xs generalizing ys table with
  | nil =>
    cases h
    exact .nil
  | cons x xs ih =>
    obtain ⟨y, ys, table₁, hy, hys, rfl⟩ := runFrom_mapM_cons_eq_ok.1 h
    exact .cons ⟨table, table₁, hy⟩ (ih hys)

/-- Each member of the second of two lists belongs to one of the first. -/
theorem exists_of_forall₂ {R : α → β → Prop} {xs : List α} {ys : List β}
    (h : List.Forall₂ R xs ys) : ∀ y ∈ ys, ∃ x ∈ xs, R x y := by
  induction h with
  | nil => exact List.forall_mem_nil _
  | cons hfirst _ ih =>
    refine List.forall_mem_cons.2 ⟨⟨_, .head _, hfirst⟩, fun y hy => ?_⟩
    obtain ⟨x, hx, hrel⟩ := ih y hy
    exact ⟨x, .tail _ hx, hrel⟩

/-- A run over a list depends on what is done with its members alone. -/
theorem mapM_congr {f f' : α → Emit β} {xs : List α} (h : ∀ x ∈ xs, f x = f' x) :
    xs.mapM f = xs.mapM f' := by
  induction xs with
  | nil => rfl
  | cons x xs ih =>
    rw [List.mapM_cons, List.mapM_cons, h x List.mem_cons_self,
      ih fun y hy => h y (List.mem_cons_of_mem x hy)]

/-- A template is named in the table that holds it from then on. -/
@[simp]
theorem runFrom_internTemplate (text : String) :
    (internTemplate text).runFrom env table =
      (.ok (table.intern text).1, (table.intern text).2) := rfl

end Emit

/-! ## Blocks -/

open Syntax

/-- A part is an attribute as a point if it is one as a part. -/
theorem Syntax.Part.isAttribute_point (part : Part) :
    part.point.isAttribute = part.isAttribute := by
  obtain ⟨path, place, value⟩ := part
  cases place <;> rfl

namespace Emitters

/-- The paths among given ones that do not lead to the root, each once. -/
def distinctPaths (paths : List (List Nat)) : List (List Nat) :=
  (paths.filter (!·.isEmpty)).eraseDups

/-- The paths of the elements other than the root that have attributes to bind, each once. -/
def targetPaths (parts : List Part) : List (List Nat) :=
  distinctPaths ((parts.filter Part.isAttribute).map Part.path)

/-- The variable for the element at a path. -/
def targetOf (paths : List (List Nat)) (path : List Nat) : String :=
  if path.isEmpty then "_root$" else targetName (paths.idxOf path)

/-- A path behind others is kept if it does not lead to the root and is not among them. -/
theorem distinctPaths_concat (paths : List (List Nat)) (path : List Nat) :
    distinctPaths (paths ++ [path]) =
      if path = [] ∨ path ∈ paths then distinctPaths paths else distinctPaths paths ++ [path] := by
  unfold distinctPaths
  by_cases hroot : path = []
  · simp [hroot]
  · by_cases hmem : path ∈ paths
    · simp [List.eraseDups_append, List.removeAll, hroot, hmem]
    · simp [List.eraseDups_append, List.eraseDups_cons, List.removeAll, hroot, hmem]

/-- The distinct paths are those that do not lead to the root. -/
theorem mem_distinctPaths {paths : List (List Nat)} {path : List Nat} :
    path ∈ distinctPaths paths ↔ path ≠ [] ∧ path ∈ paths := by
  simp [distinctPaths, List.mem_eraseDups, and_comm]

/-- A path that has been resolved is found with the variable that its index numbers. -/
theorem find?_resolved (paths : List (List Nat)) (path : List Nat) (first : Nat) :
    ((paths.zipIdx first).map fun entry => (entry.1, targetName entry.2)).find? (·.1 == path) =
      if path ∈ paths then some (path, targetName (paths.idxOf path + first)) else none := by
  induction paths generalizing first with
  | nil => rfl
  | cons other paths ih =>
    rw [List.zipIdx_cons, List.map_cons, List.find?_cons]
    by_cases heq : other = path
    · simp [heq]
    · have hne : (other == path) = false := beq_false_of_ne heq
      simp [hne, Ne.symm heq, ih, List.idxOf_cons, Nat.add_comm first, Nat.add_assoc]

/-- After a walk over attributes each distinct path has been resolved by the variable that its index
numbers, and each attribute has the variable of its path. -/
theorem Resolution.foldl_add (paths : List (List Nat)) :
    paths.foldl Resolution.add {} =
      { resolved := (distinctPaths paths).zipIdx.map fun entry => (entry.1, targetName entry.2)
        lines := (distinctPaths paths).zipIdx.map fun entry => targetLine entry.1 entry.2
        targets := paths.map (targetOf (distinctPaths paths)) } := by
  induction paths using List.reverseRecOn with
  | nil => rfl
  | append_singleton paths path ih =>
    rw [List.foldl_append, ih, List.foldl_cons, List.foldl_nil, Resolution.add,
      distinctPaths_concat, find?_resolved]
    by_cases hroot : path = []
    · simp [hroot, targetOf]
    · by_cases hmem : path ∈ paths
      · simp [hroot, hmem, targetOf, mem_distinctPaths]
      · -- The path is new. It takes the next index, and the paths before it keep theirs.
        have hnew : path ∉ distinctPaths paths := fun h => hmem (mem_distinctPaths.1 h).2
        have hkept : ∀ other ∈ paths, targetOf (distinctPaths paths ++ [path]) other =
            targetOf (distinctPaths paths) other := by
          intro other hother
          unfold targetOf
          split
          · rfl
          · rename_i hne
            rw [List.idxOf_append_of_mem (mem_distinctPaths.2 ⟨by simpa using hne, hother⟩)]
        simp [hroot, hmem, hnew, targetOf, List.zipIdx_append, List.idxOf_append_of_notMem hnew,
          List.map_congr_left hkept]

/-- A block binds each attribute through the variable of its path, and each point between tags
through that of its marker. -/
theorem pointBindings_eq (g : Emitters) (template : String) (points : List BindingPoint) :
    g.pointBindings template points = do
      let paths :=
        distinctPaths ((points.filter BindingPoint.isAttribute).map BindingPoint.path)
      let settings ← (points.filter BindingPoint.isAttribute).mapM fun point =>
        g.setting (targetOf paths point.path) point
      let insertions ← (points.filter (!·.isAttribute)).zipIdx.mapM fun entry =>
        g.contentBinding (markerName entry.2) entry.1.value
      return blockText (["const _root$ = _$clone(" ++ template ++ ");"]
        ++ paths.zipIdx.map (fun entry => targetLine entry.1 entry.2)
        ++ (points.filter (!·.isAttribute)).zipIdx.map (fun entry => searchLine entry.1 entry.2)
        ++ settings ++ insertions ++ ["return _root$;"]) := by
  have hmarkers : ∀ (points : List BindingPoint) (first : Nat),
      points.zip ((points.zipIdx first).map fun entry => markerName entry.2) =
        (points.zipIdx first).map fun entry => (entry.1, markerName entry.2) := by
    intro points
    induction points with
    | nil => exact fun _ => rfl
    | cons point points ih => exact fun first => congrArg _ (ih (first + 1))
  unfold pointBindings
  dsimp only
  rw [Resolution.foldl_add]
  dsimp only
  rw [List.map_map, ← List.map_prod_left_eq_zip, hmarkers, List.mapM_map, List.mapM_map]
  rfl

/-- The parts of a block are bound as the points that they are, in their order. -/
theorem bindings_eq (g : Emitters) (template : String) (parts : List Part) :
    g.bindings template parts = do
      let settings ← (parts.filter Part.isAttribute).mapM fun part =>
        g.attributeBinding (targetOf (targetPaths parts) part.path) part
      let insertions ← (parts.filter (!·.isAttribute)).zipIdx.mapM fun entry =>
        g.childBinding (markerName entry.2) entry.1
      return blockText (["const _root$ = _$clone(" ++ template ++ ");"]
        ++ (targetPaths parts).zipIdx.map (fun entry => targetLine entry.1 entry.2)
        ++ (parts.filter (!·.isAttribute)).zipIdx.map (fun entry => markerLine entry.1 entry.2)
        ++ settings ++ insertions ++ ["return _root$;"]) := by
  have hattributes : (parts.map Part.point).filter BindingPoint.isAttribute =
      (parts.filter Part.isAttribute).map Part.point := by
    rw [List.filter_map, show BindingPoint.isAttribute ∘ Part.point = Part.isAttribute from
      funext Part.isAttribute_point]
  have hcontents : (parts.map Part.point).filter (!·.isAttribute) =
      (parts.filter (!·.isAttribute)).map Part.point := by
    simp only [List.filter_map, Function.comp_def, Part.isAttribute_point]
  rw [bindings, pointBindings_eq]
  dsimp only
  rw [hattributes, hcontents, List.zipIdx_map, List.map_map]
  simp only [List.mapM_map, List.map_map]
  rfl

end Emitters

end MarkupCompiler
