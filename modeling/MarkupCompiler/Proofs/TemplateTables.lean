import MarkupCompiler.Emit.TemplateTable
import MarkupCompiler.Proofs.Pieces
import Mathlib.Data.List.Nodup

/-!
# Tables of templates

A table of templates is consistent if the entry at an index has the name with that index, no two
entries have the same text, and a text is looked up at the index of its entry. A table that starts
out empty stays consistent, and while texts are only added to it a name stands for one text.

A table keeps no more than the texts: names and indices are computed. A `TemplateManager` stores the
names with the texts, and looks texts up in an index of its own, both of which could be wrong. From
the empty manager on they never are (`TemplateManager.after?_spec`), so that a manager gives the
names that its table gives (`TemplateManager.Consistent.intern?_eq`).
-/

namespace MarkupCompiler

namespace TemplateTable

/-! ## Consistent tables -/

/-- Two indices have different names. -/
theorem name_injective : Function.Injective name := numbered_injective _

/-- The index at which a text is looked up. -/
def index? (table : TemplateTable) (text : String) : Option Nat :=
  if text ∈ table.texts then some (table.texts.idxOf text) else none

variable {table : TemplateTable} {text : String}

/-- A text that is found keeps its name. -/
theorem intern_of_index? {i : Nat} (h : table.index? text = some i) :
    table.intern text = (name i, table) := by
  unfold index? at h
  split at h
  · rename_i hmem
    cases h
    rw [intern, if_pos (List.contains_iff_mem.2 hmem)]
  · cases h

/-- A text that is not found is added behind the others. -/
theorem intern_of_index?_none (h : table.index? text = none) :
    table.intern text = (name table.texts.length, ⟨table.texts ++ [text]⟩) := by
  unfold index? at h
  split at h
  · cases h
  · rename_i hmem
    rw [intern, if_neg fun hcontains => hmem (List.contains_iff_mem.1 hcontains)]

/-- A table is consistent if its entries have the names with their indices, their texts are
distinct, and each text is looked up at the index of its entry. -/
structure Consistent (table : TemplateTable) : Prop where
  named : ∀ (i : Nat) (id text : String), table.entries[i]? = some (id, text) → id = name i
  distinct : (table.entries.map Prod.snd).Nodup
  indexed : ∀ (text : String) (i : Nat),
    table.index? text = some i ↔ ∃ id, table.entries[i]? = some (id, text)

/-- The entry at an index has the text there and the name with the index. -/
theorem getElem?_entries (table : TemplateTable) (i : Nat) :
    table.entries[i]? = table.texts[i]?.map fun text => (name i, text) := by
  unfold entries
  rw [List.getElem?_map, List.getElem?_zipIdx, Option.map_map, Nat.zero_add]
  rfl

/-- The entries have the texts of the table. -/
theorem map_snd_entries (table : TemplateTable) : table.entries.map Prod.snd = table.texts := by
  refine List.ext_getElem? fun i => ?_
  rw [List.getElem?_map, getElem?_entries, Option.map_map]
  exact Option.map_id'

/-- A table is consistent if no text is in it twice. -/
theorem consistent_iff (table : TemplateTable) : table.Consistent ↔ table.texts.Nodup := by
  refine ⟨fun h => table.map_snd_entries ▸ h.distinct, fun h => ⟨?_, ?_, ?_⟩⟩
  · intro i id text hentry
    rw [getElem?_entries] at hentry
    obtain ⟨_, -, heq⟩ := Option.map_eq_some_iff.1 hentry
    exact (congrArg Prod.fst heq).symm
  · rwa [map_snd_entries]
  · intro text i
    have hentry : (∃ id, table.entries[i]? = some (id, text)) ↔ table.texts[i]? = some text := by
      rw [getElem?_entries]
      simp
    rw [hentry, index?]
    constructor
    · intro hindex
      split at hindex
      · rename_i hmem
        cases hindex
        exact List.getElem?_idxOf hmem
      · cases hindex
    · intro hget
      obtain ⟨hlt, rfl⟩ := List.getElem?_eq_some_iff.1 hget
      rw [if_pos (List.getElem_mem hlt), h.idxOf_getElem i hlt]

/-- A table continues another if it has the entries of the other in front of its own. -/
def Continues (later table : TemplateTable) : Prop := table.entries <+: later.entries

/-- A table continues another if its texts do. -/
theorem continues_iff {later table : TemplateTable} :
    later.Continues table ↔ table.texts <+: later.texts := by
  constructor
  · intro h
    rw [← table.map_snd_entries, ← later.map_snd_entries]
    exact h.map Prod.snd
  · rintro ⟨more, hmore⟩
    unfold Continues entries
    rw [← hmore, List.zipIdx_append, List.map_append]
    exact List.prefix_append _ _

/-- A table continues itself. -/
theorem Continues.refl (table : TemplateTable) : table.Continues table := List.prefix_rfl

/-- What continues a continued table continues the first. -/
theorem Continues.trans {table₁ table₂ table₃ : TemplateTable} (h : table₃.Continues table₂)
    (h' : table₂.Continues table₁) : table₃.Continues table₁ := List.IsPrefix.trans h' h

/-- The name of the entry with a text. -/
def nameOf (table : TemplateTable) (text : String) : String := name (table.texts.idxOf text)

/-- A name is declared for a text if the text is the entry with the name, and there is one such
entry. -/
def Declares (table : TemplateTable) (id text : String) : Prop :=
  (id, text) ∈ table.entries ∧ (table.entries.map Prod.fst).count id = 1

/-- The names of a table are those of its indices. -/
theorem map_fst_entries (table : TemplateTable) :
    table.entries.map Prod.fst = (List.range table.texts.length).map name := by
  refine List.ext_getElem? fun i => ?_
  rw [List.getElem?_map, getElem?_entries, Option.map_map, List.getElem?_map]
  by_cases hi : i < table.texts.length
  · rw [List.getElem?_eq_getElem hi, List.getElem?_range hi]
    rfl
  · rw [List.getElem?_eq_none (Nat.le_of_not_lt hi), List.getElem?_eq_none (by simpa using hi)]
    rfl

/-- The name of a text in the table is declared for it. -/
theorem declares_nameOf (h : text ∈ table.texts) : table.Declares (table.nameOf text) text := by
  have hmem : (table.nameOf text, text) ∈ table.entries := by
    refine List.mem_of_getElem? (i := table.texts.idxOf text) ?_
    rw [getElem?_entries, List.getElem?_idxOf h]
    rfl
  have hnames : (table.entries.map Prod.fst).Nodup := by
    rw [map_fst_entries]
    exact List.nodup_range.map name_injective
  exact ⟨hmem, List.count_eq_one_of_mem hnames (List.mem_map_of_mem hmem)⟩

/-! ## Tables that grow -/

/-- What interning a text does: the text is in the table that it leaves, with the name that it
gives, and that table continues the one before and has no text twice if the one before has none. -/
theorem intern_spec (table : TemplateTable) (text : String) :
    text ∈ (table.intern text).2.texts ∧
      (table.intern text).1 = (table.intern text).2.nameOf text ∧
      (table.intern text).2.Continues table ∧
      (table.Consistent → (table.intern text).2.Consistent) := by
  by_cases hmem : text ∈ table.texts
  · have hindex : table.index? text = some (table.texts.idxOf text) := if_pos hmem
    rw [intern_of_index? hindex]
    exact ⟨hmem, rfl, .refl table, id⟩
  · have hindex : table.index? text = none := if_neg hmem
    rw [intern_of_index?_none hindex]
    refine ⟨List.mem_append_right _ (List.mem_singleton_self text), ?_,
      continues_iff.2 (List.prefix_append _ _), ?_⟩
    · rw [nameOf, List.idxOf_append_of_notMem hmem, List.idxOf_cons_self, Nat.add_zero]
    · rw [consistent_iff, consistent_iff]
      intro hnodup
      exact List.nodup_append.2 ⟨hnodup, List.nodup_singleton text, fun a ha b hb => by
        rintro rfl
        exact hmem (List.mem_singleton.1 hb ▸ ha)⟩

/-- A text has the same name in a table that continues the one that it is in. -/
theorem Continues.nameOf_eq {later table : TemplateTable} (h : later.Continues table)
    (hmem : text ∈ table.texts) : later.nameOf text = table.nameOf text := by
  unfold nameOf
  rw [(continues_iff.1 h).idxOf_eq_of_mem hmem]

/-- Two texts of a table with the same name are the same. -/
theorem nameOf_inj {a b : String} (ha : a ∈ table.texts) (h : table.nameOf a = table.nameOf b) :
    a = b :=
  (List.idxOf_inj ha).1 (name_injective h)

/-- What is done with a table. -/
inductive Step where
  | intern (text : String)
  | reset

/-- The table after a step. -/
def Step.next (table : TemplateTable) : Step → TemplateTable
  | .intern text => (table.intern text).2
  | .reset => table.reset

/-- The table after steps from the empty one on. -/
def after (steps : List Step) : TemplateTable := steps.foldl Step.next {}

/-- A step keeps a table consistent. -/
theorem Consistent.next {table : TemplateTable} (h : table.Consistent) (step : Step) :
    (step.next table).Consistent := by
  cases step with
  | intern text => exact (table.intern_spec text).2.2.2 h
  | reset => exact (consistent_iff {}).2 List.nodup_nil

/-- Whatever is done with the empty table, it stays consistent. -/
theorem consistent_after (steps : List Step) : (after steps).Consistent := by
  refine List.foldlRecOn steps Step.next ((consistent_iff {}).2 List.nodup_nil) ?_
  exact fun table h step _ => h.next step

/-- Interning texts continues a table. -/
theorem continues_foldl_intern (table : TemplateTable) (texts : List String) :
    (texts.foldl (fun table text => (table.intern text).2) table).Continues table := by
  induction texts generalizing table with
  | nil => exact .refl table
  | cons text texts ih => exact (ih _).trans (table.intern_spec text).2.2.1

/-- While texts are only added, two of them are given the same name if they are the same. -/
theorem intern_fst_eq_iff (table : TemplateTable) (a b : String) (between : List String) :
    (table.intern a).1 = ((between.foldl (fun table text => (table.intern text).2)
      (table.intern a).2).intern b).1 ↔ a = b := by
  obtain ⟨hmem, hname, -, -⟩ := table.intern_spec a
  generalize (table.intern a).2 = table₁ at hmem hname
  have hgrown := table₁.continues_foldl_intern between
  generalize between.foldl (fun table text => (table.intern text).2) table₁ = table₂ at hgrown
  obtain ⟨-, hname', hlast, -⟩ := table₂.intern_spec b
  have hgrown := hlast.trans hgrown
  rw [hname, hname', ← hgrown.nameOf_eq hmem]
  exact ⟨nameOf_inj ((continues_iff.1 hgrown).subset hmem), fun h => by rw [h]⟩

end TemplateTable

/-! ## Stored names -/

/-- A template as it is stored, with its name. -/
structure Template where
  id : String
  text : String

/-- A manager of templates: the templates that it stores, and where it finds their texts. -/
structure TemplateManager where
  templates : List Template := []
  index : Std.HashMap String Nat := {}

namespace TemplateManager

/-- The name of a text and the manager with it. The name of a text in the index is the one that is
stored there, if something is. -/
def intern? (manager : TemplateManager) (text : String) : Option (String × TemplateManager) :=
  match manager.index[text]? with
  | some i => manager.templates[i]?.map fun template => (template.id, manager)
  | none =>
    let place := manager.templates.length
    let id := TemplateTable.name place
    some (id, ⟨manager.templates ++ [⟨id, text⟩], manager.index.insert text place⟩)

/-- Drops all templates and the index. -/
def reset (_ : TemplateManager) : TemplateManager := ⟨[], {}⟩

/-- The table of the texts that a manager stores. -/
def table (manager : TemplateManager) : TemplateTable := ⟨manager.templates.map Template.text⟩

/-- A manager is consistent if its templates have the names with their indices, their texts are
distinct, and the index has each text at the index of its template. -/
structure Consistent (manager : TemplateManager) : Prop where
  named : ∀ (i : Nat) (template : Template), manager.templates[i]? = some template →
    template.id = TemplateTable.name i
  distinct : (manager.templates.map Template.text).Nodup
  indexed : ∀ (text : String) (i : Nat), manager.index[text]? = some i ↔
    ∃ template, manager.templates[i]? = some template ∧ template.text = text

/-- The empty manager is consistent. -/
theorem consistent_empty : Consistent {} where
  named i template hget := by simp at hget
  distinct := List.nodup_nil
  indexed text i := by simp

variable {manager : TemplateManager}

/-- The index of a consistent manager is that of its table. -/
theorem Consistent.index?_table (h : manager.Consistent) (text : String) :
    manager.table.index? text = manager.index[text]? := by
  have htable : manager.table.Consistent := (TemplateTable.consistent_iff _).2 h.distinct
  refine Option.ext fun i => ?_
  rw [htable.indexed, h.indexed, TemplateTable.getElem?_entries, table, List.getElem?_map]
  simp

/-- What is found in a list with another member behind it. -/
theorem getElem?_concat_eq_some {α : Type} {xs : List α} {x y : α} {i : Nat} :
    (xs ++ [x])[i]? = some y ↔ xs[i]? = some y ∨ i = xs.length ∧ x = y := by
  by_cases hlt : i < xs.length
  · simp [List.getElem?_append_left hlt, Nat.ne_of_lt hlt]
  · rw [List.getElem?_append_right (Nat.le_of_not_lt hlt), List.getElem?_singleton,
      List.getElem?_eq_none (Nat.le_of_not_lt hlt)]
    simp [show i - xs.length = 0 ↔ i = xs.length by omega]

/-- A consistent manager stays so when a template is added for a text that is not in its index. -/
theorem Consistent.add (h : manager.Consistent) {text : String}
    (hnew : manager.index[text]? = none) :
    Consistent ⟨manager.templates ++ [⟨TemplateTable.name manager.templates.length, text⟩],
      manager.index.insert text manager.templates.length⟩ := by
  -- The index knows every text in the list, so a text that it lacks is none of them.
  have hother : ∀ (i : Nat) (template : Template), manager.templates[i]? = some template →
      template.text ≠ text := by
    rintro i template hget rfl
    cases hnew.symm.trans ((h.indexed _ i).2 ⟨template, hget, rfl⟩)
  refine ⟨fun i template hget => ?_, ?_, fun other i => ?_⟩
  · rcases getElem?_concat_eq_some.1 hget with hget | ⟨rfl, rfl⟩
    · exact h.named i template hget
    · rfl
  · rw [List.map_append, List.nodup_append]
    refine ⟨h.distinct, List.nodup_singleton _, ?_⟩
    rintro _ hold _ hlast rfl
    obtain ⟨template, hmem, rfl⟩ := List.mem_map.1 hold
    obtain ⟨i, hget⟩ := List.mem_iff_getElem?.1 hmem
    exact hother i template hget (List.mem_singleton.1 hlast)
  · simp only [Std.HashMap.getElem?_insert, getElem?_concat_eq_some]
    by_cases heq : text = other
    · -- The new text is found at the new place, and nowhere else.
      subst heq
      rw [beq_self_eq_true, if_pos rfl]
      constructor
      · rintro ⟨⟩
        exact ⟨_, .inr ⟨rfl, rfl⟩, rfl⟩
      · rintro ⟨template, hget | ⟨rfl, rfl⟩, htext⟩
        · exact absurd htext (hother i template hget)
        · rfl
    · rw [if_neg fun hbeq => heq (eq_of_beq hbeq), h.indexed]
      constructor
      · rintro ⟨template, hget, htext⟩
        exact ⟨template, .inl hget, htext⟩
      · rintro ⟨template, hget | ⟨rfl, rfl⟩, htext⟩
        · exact ⟨template, hget, htext⟩
        · exact absurd htext heq

/-- A consistent manager gives a text the name that its table gives it, and is consistent with the
later table then. -/
theorem Consistent.intern?_eq (h : manager.Consistent) (text : String) : ∃ later : TemplateManager,
      manager.intern? text = some ((manager.table.intern text).1, later) ∧
      later.Consistent ∧ later.table = (manager.table.intern text).2 := by
  have hindex := h.index?_table text
  unfold intern?
  cases hfound : manager.index[text]? with
  | none =>
    rw [TemplateTable.intern_of_index?_none (hindex.trans hfound)]
    refine ⟨_, ?_, h.add hfound, ?_⟩
    · simp [table]
    · simp [table]
  | some i =>
    rw [TemplateTable.intern_of_index? (hindex.trans hfound)]
    obtain ⟨template, hget, -⟩ := (h.indexed text i).1 hfound
    refine ⟨manager, ?_, h, rfl⟩
    rw [← h.named i template hget]
    simp [hget]

/-- The manager after a step. -/
def next? (manager : TemplateManager) : TemplateTable.Step → Option TemplateManager
  | .intern text => (manager.intern? text).map Prod.snd
  | .reset => some manager.reset

/-- The manager after steps from the empty one on. -/
def after? (steps : List TemplateTable.Step) : Option TemplateManager := steps.foldlM next? {}

/-- Whatever is done with the empty manager, no template is missed where the index points, and the
manager is consistent and stands for the table after the same steps. -/
theorem after?_spec (steps : List TemplateTable.Step) : ∃ manager : TemplateManager,
    after? steps = some manager ∧ manager.Consistent ∧
      manager.table = TemplateTable.after steps := by
  induction steps using List.reverseRecOn with
  | nil => exact ⟨{}, rfl, consistent_empty, rfl⟩
  | append_singleton steps step ih =>
    obtain ⟨manager, hafter, hconsistent, htable⟩ := ih
    have hlast : after? (steps ++ [step]) = manager.next? step := by
      unfold after? at hafter ⊢
      rw [List.foldlM_append, hafter]
      simp
    rw [hlast, TemplateTable.after, List.foldl_append, ← TemplateTable.after, ← htable]
    cases step with
    | intern text =>
      obtain ⟨later, hintern, hlater, htable⟩ := hconsistent.intern?_eq text
      exact ⟨later, by rw [next?, hintern]; rfl, hlater, htable⟩
    | reset => exact ⟨manager.reset, rfl, consistent_empty, rfl⟩

end TemplateManager

end MarkupCompiler
