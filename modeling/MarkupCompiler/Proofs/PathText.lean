import Mathlib.Data.List.Lex
import MarkupCompiler.Host.Discovery

/-!
# Paths as texts

The path of a file below a root is the text of the root, a slash, and the names that lead from the
root to the file with slashes between them (`toList_pathBelow`). So the stretches of the path
between separators are those of the root and then those of the names. Paths are ordered component by
component (`PathBefore`), and below one root this is the order of the names that lead to the files
(`pathBefore_pathBelow`).
-/

namespace MarkupCompiler

namespace FileId

/-! ## Splitting -/

section

variable {isSeparator : Char → Bool}

/-- A text has at least one stretch. -/
theorem splitAt_ne_nil (isSeparator : Char → Bool) (text : List Char) :
    splitAt isSeparator text ≠ [] := by
  fun_cases splitAt isSeparator text <;> simp_all

/-- A separator divides the stretches of a text. -/
theorem splitAt_append_cons {c : Char} (hc : isSeparator c = true) (front back : List Char) :
    splitAt isSeparator (front ++ c :: back) =
      splitAt isSeparator front ++ splitAt isSeparator back := by
  induction front with
  | nil => simp [splitAt, hc]
  | cons d front ih =>
    rw [List.cons_append, splitAt, splitAt]
    split
    · rw [ih, List.cons_append]
    · cases hfront : splitAt isSeparator front with
      | nil => exact absurd hfront (splitAt_ne_nil _ front)
      | cons part parts => simp [ih, hfront]

/-- A text without separators is one stretch. -/
theorem splitAt_eq_singleton {text : List Char} (h : ∀ c ∈ text, isSeparator c = false) :
    splitAt isSeparator text = [text] := by
  induction text with
  | nil => rfl
  | cons c text ih =>
    have hc : isSeparator c = false := h c (.head _)
    simp [splitAt, hc, ih fun d hd => h d (List.mem_cons_of_mem c hd)]

/-- The characters of a stretch are characters of the text. -/
theorem mem_of_mem_splitAt {text part : List Char} (hpart : part ∈ splitAt isSeparator text)
    {c : Char} (hc : c ∈ part) : c ∈ text := by
  induction text generalizing part with
  | nil =>
    rw [splitAt, List.mem_singleton] at hpart
    exact hpart ▸ hc
  | cons d text ih =>
    rw [splitAt] at hpart
    split at hpart
    · rcases List.mem_cons.1 hpart with rfl | hpart
      · cases hc
      · exact List.mem_cons_of_mem d (ih hpart hc)
    · cases hsplit : splitAt isSeparator text with
      | nil => exact absurd hsplit (splitAt_ne_nil _ text)
      | cons first parts =>
        rw [hsplit] at hpart ih
        rcases List.mem_cons.1 hpart with rfl | hpart
        · rcases List.mem_cons.1 hc with rfl | hc
          · exact .head _
          · exact List.mem_cons_of_mem d (ih (.head _) hc)
        · exact List.mem_cons_of_mem d (ih (List.mem_cons_of_mem first hpart) hc)

/-- Texts joined by a separator have their own stretches, one text after the other. -/
theorem splitAt_intercalate {c : Char} (hc : isSeparator c = true) {texts : List (List Char)}
    (hne : texts ≠ []) :
    splitAt isSeparator ([c].intercalate texts) = texts.flatMap (splitAt isSeparator) := by
  induction texts with
  | nil => exact absurd rfl hne
  | cons text texts ih =>
    cases texts with
    | nil => simp
    | cons next texts =>
      rw [List.intercalate_cons_cons, List.append_assoc, List.singleton_append,
        splitAt_append_cons hc, ih (List.cons_ne_nil _ _)]
      rfl

end

/-- An id is part of a path as long as no question mark or number sign ends it. -/
theorem pathOf_append {front : List Char} (h : ∀ c ∈ front, c ≠ '?' ∧ c ≠ '#')
    (back : List Char) : pathOf (front ++ back) = front ++ pathOf back :=
  List.takeWhile_append_of_pos fun c hc => by simp [h c hc]

/-- An id without a question mark or number sign is a path. -/
theorem pathOf_eq_self {id : List Char} (h : ∀ c ∈ id, c ≠ '?' ∧ c ≠ '#') : pathOf id = id := by
  have hsame := pathOf_append h []
  have hnil : pathOf [] = [] := rfl
  rwa [hnil, List.append_nil] at hsame

/-- The names along a path are those before a slash and those after it. -/
theorem names_append_slash (front back : List Char) :
    names (front ++ '/' :: back) = names front ++ names back := by
  rw [names, splitAt_append_cons rfl, List.filter_append]
  rfl

end FileId

/-! ## Paths below a root -/

/-- A name that a file or a directory can have. -/
structure IsName (name : String) : Prop where
  ne_empty : name.toList ≠ []
  ne_dot : name.toList ≠ ['.']
  ne_dots : name.toList ≠ ['.', '.']
  no_slash : '/' ∉ name.toList

instance (name : String) : Decidable (IsName name) :=
  decidable_of_iff (name.toList ≠ [] ∧ name.toList ≠ ['.'] ∧ name.toList ≠ ['.', '.'] ∧
      '/' ∉ name.toList)
    ⟨fun ⟨h₁, h₂, h₃, h₄⟩ => ⟨h₁, h₂, h₃, h₄⟩, fun ⟨h₁, h₂, h₃, h₄⟩ => ⟨h₁, h₂, h₃, h₄⟩⟩

/-- A root without the slash at its end. -/
def rootStem (root : List Char) : List Char :=
  if root.getLast? = some '/' then root.dropLast else root

/-- A root is its stem, perhaps with a slash. -/
theorem eq_rootStem (root : List Char) : root = rootStem root ∨ root = rootStem root ++ ['/'] := by
  rw [rootStem]
  split
  · rename_i hslash
    exact .inr (List.dropLast_append_getLast? _ hslash).symm
  · exact .inl rfl

/-- Names with slashes between them. -/
def joinNames (names : List String) : List Char := ['/'].intercalate (names.map String.toList)

/-- What stands directly below a root. -/
theorem toList_pathBelow_singleton (root name : String) :
    (pathBelow root [name]).toList = rootStem root.toList ++ '/' :: name.toList := by
  rw [pathBelow, pathBelow, rootStem]
  by_cases hslash : root.toList.getLast? = some '/'
  · have hroot : root.toList.dropLast ++ ['/'] = root.toList :=
      List.dropLast_append_getLast? _ hslash
    rw [if_pos hslash, ← List.singleton_append, ← List.append_assoc, hroot]
    simp [hslash]
  · simp [hslash]

/-- A path that ends in a name is its own stem. -/
theorem rootStem_append_slash (front : List Char) {name : String} (h : IsName name) :
    rootStem (front ++ '/' :: name.toList) = front ++ '/' :: name.toList := by
  have hlast : (front ++ '/' :: name.toList).getLast? = name.toList.getLast? := by
    rw [List.getLast?_append, List.getLast?_cons_of_ne_nil h.ne_empty]
    cases hname : name.toList.getLast? with
    | none => exact absurd (List.getLast?_eq_none_iff.1 hname) h.ne_empty
    | some c => rfl
  rw [rootStem, hlast, if_neg]
  exact fun hslash => h.no_slash (List.mem_of_getLast? hslash)

/-- The path of what stands below a root is the root, a slash and the names that lead there. -/
theorem toList_pathBelow (root : String) {names : List String} (hne : names ≠ [])
    (hnames : ∀ name ∈ names, IsName name) :
    (pathBelow root names).toList = rootStem root.toList ++ '/' :: joinNames names := by
  induction names generalizing root with
  | nil => exact absurd rfl hne
  | cons name names ih =>
    have hname : IsName name := hnames name (.head _)
    cases names with
    | nil =>
      rw [toList_pathBelow_singleton]
      simp [joinNames]
    | cons next names =>
      have hbelow : pathBelow root (name :: next :: names) =
          pathBelow (pathBelow root [name]) (next :: names) := rfl
      rw [hbelow, ih _ (List.cons_ne_nil _ _) fun n hn => hnames n (List.mem_cons_of_mem _ hn),
        toList_pathBelow_singleton, rootStem_append_slash _ hname]
      simp [joinNames]

/-- The stretches of a path below a root are those of the root and of the names. -/
theorem splitAt_pathBelow {isSeparator : Char → Bool} (hslash : isSeparator '/' = true)
    (root : String) {names : List String} (hne : names ≠ [])
    (hnames : ∀ name ∈ names, IsName name) :
    FileId.splitAt isSeparator (pathBelow root names).toList =
      FileId.splitAt isSeparator (rootStem root.toList) ++
        names.flatMap fun name => FileId.splitAt isSeparator name.toList := by
  rw [toList_pathBelow root hne hnames, FileId.splitAt_append_cons hslash, joinNames,
    FileId.splitAt_intercalate hslash (by simpa using hne), List.flatMap_map]

/-- A name on the way to a file is a stretch of its path, if no separator is in it. -/
theorem mem_splitAt_pathBelow {isSeparator : Char → Bool} (hslash : isSeparator '/' = true)
    (root : String) {name : String} {names : List String} (hnames : ∀ name ∈ names, IsName name)
    (hmem : name ∈ names) (hname : FileId.splitAt isSeparator name.toList = [name.toList]) :
    name.toList ∈ FileId.splitAt isSeparator (pathBelow root names).toList := by
  rw [splitAt_pathBelow hslash root (List.ne_nil_of_mem hmem) hnames]
  refine List.mem_append_right _ (List.mem_flatMap.2 ⟨name, hmem, ?_⟩)
  rw [hname]
  exact .head _

/-- A name is one stretch between slashes. -/
theorem IsName.splitAt {name : String} (h : IsName name) :
    FileId.splitAt (· == '/') name.toList = [name.toList] :=
  FileId.splitAt_eq_singleton fun c hc => by
    rw [beq_eq_false_iff_ne]
    rintro rfl
    exact h.no_slash hc

/-- A slash at the end of a root adds no name. -/
theorem names_rootStem (root : List Char) : FileId.names (rootStem root) = FileId.names root := by
  rcases eq_rootStem root with hroot | hroot
  · rw [← hroot]
  · have hnone : FileId.names [] = [] := rfl
    rw [hroot, FileId.names_append_slash, hnone, List.append_nil, ← hroot]

/-- The names along a path below a root are those of the root and those that lead on from it. -/
theorem names_pathBelow (root : String) {names : List String}
    (hnames : ∀ name ∈ names, IsName name) :
    FileId.names (pathBelow root names).toList =
      FileId.names root.toList ++ names.map String.toList := by
  by_cases hne : names = []
  · subst hne
    simp [pathBelow]
  · have hsplit : names.flatMap (fun name => FileId.splitAt (· == '/') name.toList) =
        names.map String.toList := by
      rw [List.map_eq_flatMap]
      exact List.flatMap_congr fun name hname => (hnames name hname).splitAt
    rw [FileId.names, splitAt_pathBelow rfl root hne hnames, List.filter_append, hsplit,
      ← names_rootStem root.toList, FileId.names]
    congr 1
    rw [List.filter_eq_self]
    intro name hname
    obtain ⟨name, hmem, rfl⟩ := List.mem_map.1 hname
    simp [(hnames name hmem).ne_empty, (hnames name hmem).ne_dot]

/-! ## The order of paths -/

/-- A component of a path. -/
inductive Component where
  /-- The slash that a path begins with. -/
  | top
  /-- The dot that a path begins with. -/
  | here
  /-- Two dots. -/
  | above
  | name (text : List Char)
  deriving DecidableEq, Repr

/-- The names along a path as components. -/
def Component.ofName (name : List Char) : Component :=
  if name = ['.', '.'] then .above else .name name

/-- What a path begins with, if that is a component and no name. -/
def leadingComponent (path : List Char) : List Component :=
  if path.head? = some '/' then [.top]
  else if (FileId.splitAt (· == '/') path).head? = some ['.'] then [.here] else []

/-- The components of a path. -/
def components (path : String) : List Component :=
  leadingComponent path.toList ++ (FileId.names path.toList).map Component.ofName

/-- A name comes before another by the first character in which they differ. -/
abbrev NameBefore : List Char → List Char → Prop := List.Lex fun a b => a.toNat < b.toNat

/-- The place of a component among those of other kinds. -/
def Component.rank : Component → Nat
  | top => 0
  | here => 1
  | above => 2
  | name _ => 3

/-- A component comes before another: by its kind, and two names by their characters. -/
def Component.Before : Component → Component → Prop
  | name a, name b => NameBefore a b
  | a, b => a.rank < b.rank

/-- A path comes before another by the first component in which they differ. -/
def PathBefore (path path' : String) : Prop :=
  List.Lex Component.Before (components path) (components path')

/-- What a path begins with is decided before its second slash. -/
theorem leadingComponent_append_slash (front back back' : List Char) :
    leadingComponent (front ++ '/' :: back) = leadingComponent (front ++ '/' :: back') := by
  rw [leadingComponent, leadingComponent, FileId.splitAt_append_cons rfl,
    FileId.splitAt_append_cons rfl]
  have hsplit := FileId.splitAt_ne_nil (· == '/') front
  cases front with
  | nil => rfl
  | cons c front => simp [List.head?_append_of_ne_nil _ hsplit]

/-- What stands below a root has a path that begins as that of the root does. -/
theorem leadingComponent_rootStem {root : List Char} (hne : root ≠ []) (rest : List Char) :
    leadingComponent (rootStem root ++ '/' :: rest) = leadingComponent root := by
  rw [rootStem]
  split
  · rename_i hslash
    rw [leadingComponent_append_slash _ rest [], List.dropLast_append_getLast? _ hslash]
  · have hsplit := FileId.splitAt_ne_nil (· == '/') root
    rw [leadingComponent, leadingComponent, FileId.splitAt_append_cons rfl,
      List.head?_append_of_ne_nil _ hne, List.head?_append_of_ne_nil _ hsplit]

/-- The components of a path below a root are those of the root and then names. -/
theorem components_pathBelow {root : String} (hroot : root.toList ≠ []) {names : List String}
    (hnames : ∀ name ∈ names, IsName name) :
    components (pathBelow root names) =
      components root ++ names.map fun name => .name name.toList := by
  have hlead : leadingComponent (pathBelow root names).toList = leadingComponent root.toList := by
    by_cases hne : names = []
    · rw [hne, pathBelow]
    · rw [toList_pathBelow root hne hnames, leadingComponent_rootStem hroot]
  have hofName : names.map (Component.ofName ∘ String.toList) =
      names.map fun name => .name name.toList :=
    List.map_congr_left fun name hname => if_neg (hnames name hname).ne_dots
  rw [components, components, hlead, names_pathBelow root hnames, List.map_append, List.map_map,
    hofName, List.append_assoc]

/-- Characters are ordered by their codes. -/
instance Char.trichotomous_toNat : Std.Trichotomous fun a b : Char => a.toNat < b.toNat where
  trichotomous a b hab hba := Char.toNat_inj.1 (by omega)

/-- One character does not come both before and after another. -/
instance Char.asymm_toNat : Std.Asymm fun a b : Char => a.toNat < b.toNat where
  asymm _ _ hab hba := by omega

/-- A character comes after the first of two that are in order or before the second. -/
instance Char.isOrderConnected_toNat : IsOrderConnected Char fun a b => a.toNat < b.toNat where
  conn _ _ _ h := by omega

/-- The order of lists by the first place in which they differ is transitive. -/
theorem lex_trans {α : Type} {r : α → α → Prop} [IsOrderConnected (List α) (List.Lex r)]
    [Std.Asymm (List.Lex r)] {a b c : List α} (hab : List.Lex r a b) (hbc : List.Lex r b c) :
    List.Lex r a c :=
  (IsOrderConnected.conn a c b hab).resolve_right (Std.Asymm.asymm b c hbc)

/-- Names are compared by the first character in which they differ. -/
theorem nameBefore_iff (a b : List Char) : nameBefore a b = true ↔ NameBefore a b := by
  fun_induction nameBefore a b with
  | case1 a =>
    constructor
    · intro h
      cases h
    · intro h
      cases h
  | case2 b bs => exact ⟨fun _ => .nil, fun _ => rfl⟩
  | case3 a as b bs ih =>
    rw [Bool.or_eq_true, Bool.and_eq_true, decide_eq_true_iff, beq_iff_eq, ih]
    constructor
    · rintro (h | ⟨rfl, h⟩)
      · exact .rel h
      · exact .cons h
    · intro h
      cases h with
      | rel h => exact .inl h
      | cons h => exact .inr ⟨rfl, h⟩

/-- Names in the order of paths. -/
abbrev NamesBefore (names names' : List String) : Prop :=
  List.Lex NameBefore (names.map String.toList) (names'.map String.toList)

/-- Names are ordered if they are the same or in the order of paths. -/
theorem pathOrdered_iff (names names' : List String) :
    pathOrdered names names' = true ↔ names = names' ∨ NamesBefore names names' := by
  fun_induction pathOrdered names names' with
  | case1 names' =>
    cases names' with
    | nil => simp
    | cons name names' => exact ⟨fun _ => .inr .nil, fun _ => rfl⟩
  | case2 name names =>
    constructor
    · intro h
      cases h
    · rintro (h | h) <;> cases h
  | case3 name names name' names' heq ih =>
    obtain rfl : name = name' := beq_iff_eq.1 heq
    rw [ih, List.cons.injEq, and_iff_right rfl]
    exact or_congr Iff.rfl (List.lex_cons_iff (r := NameBefore)).symm
  -- The first names differ, so they decide.
  | case4 name names name' names' hdiffer =>
    have hne : name.toList ≠ name'.toList := fun h =>
      hdiffer (beq_iff_eq.2 (String.toList_inj.1 h))
    rw [nameBefore_iff]
    constructor
    · exact fun h => .inr (.rel h)
    · rintro (h | h)
      · exact absurd (congrArg String.toList (List.cons.inj h).1) hne
      · rw [NamesBefore, List.map_cons, List.map_cons] at h
        generalize name.toList = a, name'.toList = a' at h hne ⊢
        cases h with
        | rel h => exact h
        | cons h => exact absurd rfl hne

/-- The order of paths is transitive. -/
theorem pathOrdered_trans (a b c : List String) (hab : pathOrdered a b = true)
    (hbc : pathOrdered b c = true) : pathOrdered a c = true := by
  rw [pathOrdered_iff] at *
  rcases hab with rfl | hab
  · exact hbc
  · rcases hbc with rfl | hbc
    · exact .inr hab
    · exact .inr (lex_trans hab hbc)

/-- Of two paths one does not come after the other. -/
theorem pathOrdered_total (a b : List String) : (pathOrdered a b || pathOrdered b a) = true := by
  rw [Bool.or_eq_true, pathOrdered_iff, pathOrdered_iff]
  rcases trichotomous_of (List.Lex NameBefore) (a.map String.toList) (b.map String.toList) with
    h | h | h
  · exact .inl (.inr h)
  · exact .inl (.inl (List.map_injective_iff.2 (fun _ _ => String.toList_inj.1) h))
  · exact .inr (.inr h)

/-- Names in order are components in order. -/
theorem NamesBefore.lex_components {names names' : List String} (h : NamesBefore names names') :
    List.Lex Component.Before (names.map fun name => .name name.toList)
      (names'.map fun name => .name name.toList) := by
  induction names generalizing names' with
  | nil =>
    cases names' with
    | nil => cases h
    | cons name' names' => exact .nil
  | cons name names ih =>
    cases names' with
    | nil => cases h
    | cons name' names' =>
      rw [NamesBefore, List.map_cons, List.map_cons] at h
      rw [List.map_cons, List.map_cons]
      generalize name.toList = a, name'.toList = a' at h ⊢
      cases h with
      | rel h => exact .rel h
      | cons h => exact .cons (ih h)

/-- Below one root, different names in order lead to paths in order. -/
theorem pathBefore_pathBelow {root : String} (hroot : root.toList ≠ []) {names names' : List String}
    (hnames : ∀ name ∈ names, IsName name) (hnames' : ∀ name ∈ names', IsName name)
    (horder : pathOrdered names names' = true) (hne : names ≠ names') :
    PathBefore (pathBelow root names) (pathBelow root names') := by
  have hbefore : NamesBefore names names' := ((pathOrdered_iff _ _).1 horder).resolve_left hne
  rw [PathBefore, components_pathBelow hroot hnames, components_pathBelow hroot hnames']
  exact List.Lex.append_left _ hbefore.lex_components _

end MarkupCompiler
