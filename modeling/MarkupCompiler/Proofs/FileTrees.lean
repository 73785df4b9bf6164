import Mathlib.Data.List.Nodup
import MarkupCompiler.Proofs.PathText

/-!
# Directory trees

In a directory tree each entry of a directory has a name of its own (`FileTree.IsProper`). What is
found in such a tree is exactly what stands at the end of some names, none of which but the last may
be excluded (`FileTree.IsProper.mem_files`), and each file is found once
(`FileTree.IsProper.nodup_files`). A path below a root leads to what stands there below it
(`FileTree.IsProper.resolve?_pathBelow`).
-/

namespace MarkupCompiler.FileTree

/-- Whether a tree is a directory. -/
def isDirectory : FileTree → Bool
  | file _ => false
  | directory _ => true

/-- What stands at the end of names below a tree. -/
def at? : FileTree → List String → Option FileTree
  | tree, [] => some tree
  | tree, name :: names => (tree.entries.lookup name).bind (at? · names)

/-- A tree of files and directories as it can be stored: the entries of each directory have names,
and each its own. -/
inductive IsProper : FileTree → Prop
  | file (content : ByteArray) : IsProper (.file content)
  | directory {entries : List (String × FileTree)} (names : ∀ entry ∈ entries, IsName entry.1)
      (distinct : (entries.map Prod.fst).Nodup) (inner : ∀ entry ∈ entries, entry.2.IsProper) :
      IsProper (.directory entries)

/-- A file is a proper tree. -/
@[simp] theorem isProper_file (content : ByteArray) : (FileTree.file content).IsProper :=
  .file content

variable {entries : List (String × FileTree)} {name : String} {names : List String}
  {tree found : FileTree} {root : String}

/-- A directory is a proper tree if its entries have names, each its own, and hold proper trees. -/
@[simp] theorem isProper_directory :
    (FileTree.directory entries).IsProper ↔ (∀ entry ∈ entries, IsName entry.1) ∧
      (entries.map Prod.fst).Nodup ∧ ∀ entry ∈ entries, entry.2.IsProper :=
  ⟨fun | .directory names distinct inner => ⟨names, distinct, inner⟩,
    fun ⟨names, distinct, inner⟩ => .directory names distinct inner⟩

/-! ## Entries -/

/-- Only a directory has something at the end of names. -/
theorem isDirectory_of_at? (h : tree.at? (name :: names) = some found) :
    tree.isDirectory = true := by
  cases tree with
  | file content => cases h
  | directory entries => rfl

/-- A name that leads somewhere is that of an entry. -/
theorem mem_of_lookup {inner : FileTree} (h : entries.lookup name = some inner) :
    (name, inner) ∈ entries := by
  obtain ⟨before, after, rfl, -⟩ := List.lookup_eq_some_iff.1 h
  exact List.mem_append_right _ (.head _)

/-- Where names are distinct, the name of an entry leads to it. -/
theorem lookup_of_mem {inner : FileTree} (hdistinct : (entries.map Prod.fst).Nodup)
    (h : (name, inner) ∈ entries) : entries.lookup name = some inner := by
  obtain ⟨before, after, rfl⟩ := List.append_of_mem h
  refine List.lookup_eq_some_iff.2 ⟨before, after, rfl, fun entry hentry => ?_⟩
  rw [bne_iff_ne]
  rintro rfl
  rw [List.map_append, List.map_cons] at hdistinct
  exact (List.nodup_append.1 hdistinct).2.2 _ (List.mem_map_of_mem hentry) _
    (.head _) rfl

/-- Names that lead somewhere in a proper tree are names of entries, and a proper tree stands at
their end. -/
theorem IsProper.of_at? (h : tree.IsProper) (hat : tree.at? names = some found) :
    (∀ name ∈ names, IsName name) ∧ found.IsProper := by
  induction names generalizing tree with
  | nil =>
    cases hat
    exact ⟨fun name hname => (List.not_mem_nil hname).elim, h⟩
  | cons name names ih =>
    obtain ⟨inner, hlookup, hinner⟩ := Option.bind_eq_some_iff.1 hat
    cases h with
    | file content => cases hlookup
    | directory hnames hdistinct hproper =>
      have hmem := mem_of_lookup hlookup
      obtain ⟨hrest, hfound⟩ := ih (hproper _ hmem) hinner
      refine ⟨fun n hn => ?_, hfound⟩
      rcases List.mem_cons.1 hn with rfl | hn
      · exact hnames _ hmem
      · exact hrest n hn

/-! ## Files -/

/-- The files of a directory are those of its entries; a directory among them is left out if its
name is excluded. -/
theorem filesIn_eq (isExcluded : String → Bool) (start : List String)
    (entries : List (String × FileTree)) :
    filesIn isExcluded start entries = entries.flatMap fun entry =>
      if entry.2.isDirectory && isExcluded entry.1 then []
      else entry.2.files isExcluded (start ++ [entry.1]) := by
  induction entries with
  | nil => rw [filesIn, List.flatMap_nil]
  | cons entry entries ih =>
    obtain ⟨name, tree⟩ := entry
    rw [List.flatMap_cons, ← ih]
    cases tree with
    | file content => simp [filesIn, files, isDirectory]
    | directory inner => cases hname : isExcluded name <;> simp [filesIn, files, isDirectory, hname]

/-- What is found in a proper tree stands at the end of names of which none but the last is
excluded. -/
theorem IsProper.mem_files {tree : FileTree} (h : tree.IsProper) (isExcluded : String → Bool)
    (start path : List String) (content : ByteArray) :
    (path, content) ∈ tree.files isExcluded start ↔
      ∃ names, path = start ++ names ∧ tree.at? names = some (.file content) ∧
        ∀ name ∈ names.dropLast, isExcluded name = false := by
  induction h generalizing start with
  | file content' =>
    rw [files, List.mem_singleton]
    constructor
    · intro h
      cases h
      exact ⟨[], by simp, rfl, by simp⟩
    · rintro ⟨names, rfl, hat, -⟩
      cases names with
      | nil =>
        cases hat
        simp
      | cons name names => cases isDirectory_of_at? hat
  | @directory entries hnames hdistinct hproper ih =>
    rw [files, filesIn_eq, List.mem_flatMap]
    constructor
    · rintro ⟨⟨name, tree⟩, hentry, hmem⟩
      split at hmem
      · cases hmem
      · rename_i hentered
        -- The file lies below the entry, so the name of the entry comes before its names.
        obtain ⟨names, rfl, hat, hincluded⟩ := (ih _ hentry _).1 hmem
        refine ⟨name :: names, by simp, ?_, ?_⟩
        · rw [at?, FileTree.entries, lookup_of_mem hdistinct hentry]
          exact hat
        · cases names with
          | nil => simp
          | cons next names =>
            rw [isDirectory_of_at? hat, Bool.true_and, Bool.not_eq_true] at hentered
            intro n hn
            rw [List.dropLast_cons_cons] at hn
            rcases List.mem_cons.1 hn with rfl | hn
            · exact hentered
            · exact hincluded n hn
    · rintro ⟨names, rfl, hat, hincluded⟩
      cases names with
      | nil => cases hat
      | cons name names =>
        obtain ⟨inner, hlookup, hinner⟩ := Option.bind_eq_some_iff.1 hat
        have hentry := mem_of_lookup hlookup
        refine ⟨(name, inner), hentry, ?_⟩
        -- The entry is entered: it is the file, or a directory that is not excluded.
        rw [if_neg]
        · refine (ih _ hentry _).2 ⟨names, by simp, hinner, fun n hn => ?_⟩
          cases names with
          | nil => cases hn
          | cons next names => exact hincluded n (List.mem_cons_of_mem _ hn)
        · cases names with
          | nil =>
            cases hinner
            simp [isDirectory]
          | cons next names => simp [hincluded name List.mem_cons_self]

/-- No two files of a proper tree are found at the end of the same names. -/
theorem IsProper.nodup_files {tree : FileTree} (h : tree.IsProper) (isExcluded : String → Bool)
    (start : List String) :
    (tree.files isExcluded start).Pairwise fun found found' => found.1 ≠ found'.1 := by
  induction h generalizing start with
  | file content => simp [files]
  | @directory entries hnames hdistinct hproper ih =>
    rw [files, filesIn_eq, List.pairwise_flatMap]
    constructor
    · intro entry hentry
      split
      · exact .nil
      · exact ih entry hentry _
    · rw [List.nodup_iff_pairwise_ne, List.pairwise_map] at hdistinct
      refine hdistinct.imp_of_mem fun {entry entry'} hentry hentry' hne => ?_
      -- The names that lead to files of different entries differ in the name of the entry.
      intro found hfound found' hfound' hsame
      split at hfound
      · cases hfound
      · split at hfound'
        · cases hfound'
        · obtain ⟨names, hpath, -, -⟩ := ((hproper _ hentry).mem_files _ _ found.1 found.2).1 hfound
          obtain ⟨names', hpath', -, -⟩ :=
            ((hproper _ hentry').mem_files _ _ found'.1 found'.2).1 hfound'
          rw [hsame, hpath', List.append_assoc, List.append_assoc] at hpath
          exact hne (List.cons.inj (List.append_cancel_left hpath)).1.symm

/-! ## Paths -/

/-- Without two dots, names are followed down from a tree. -/
theorem descend_eq_at? (above : List FileTree) (tree : FileTree)
    (hnames : ∀ name ∈ names, IsName name) : descend above tree names = tree.at? names := by
  induction names generalizing above tree with
  | nil => cases tree <;> rfl
  | cons name names ih =>
    have hdots : (name == "..") = false := by
      rw [beq_eq_false_iff_ne]
      rintro rfl
      exact (hnames ".." (.head _)).ne_dots rfl
    cases tree with
    | file content => rfl
    | directory entries =>
      simp only [descend, hdots, Bool.false_eq_true, if_false, at?, FileTree.entries]
      cases entries.lookup name with
      | none => rfl
      | some inner => exact ih _ inner fun n hn => hnames n (List.mem_cons_of_mem _ hn)

/-- Names without two dots go on from where other names lead. -/
theorem descend_append (above : List FileTree) (tree : FileTree) (front : List String)
    (hnames : ∀ name ∈ names, IsName name) :
    descend above tree (front ++ names) = (descend above tree front).bind (·.at? names) := by
  fun_induction descend above tree front with
  | case1 above tree => exact descend_eq_at? above tree hnames
  | case2 => rfl
  | case3 => simp [descend, *]
  | case4 => simp [descend, *]
  | case5 => simp [descend, *]
  | case6 => simp [descend, *]

/-- A path that leads somewhere leads there by its names. -/
theorem descend_of_resolve? {tree below : FileTree} (h : tree.resolve? root = some below) :
    root.toList ≠ [] ∧
      descend [] tree ((FileId.names root.toList).map String.ofList) = some below := by
  rw [resolve?] at h
  split at h
  · cases h
  · rename_i hne
    refine ⟨fun hnil => hne ?_, ?_⟩
    · rw [String.isEmpty_iff, ← String.toList_inj, hnil]
      rfl
    · split at h
      · rename_i hfound
        split at h
        · cases h
        · cases h
          exact hfound
      · exact h

/-- A path that ends in a name may be that of a file. -/
theorem endsInDirectory_pathBelow (root : String) (hne : names ≠ [])
    (hnames : ∀ name ∈ names, IsName name) :
    endsInDirectory (pathBelow root names).toList = false := by
  obtain ⟨front, last, rfl⟩ := List.eq_nil_or_concat names |>.resolve_left hne
  have hlast : IsName last := hnames last (by simp)
  rw [endsInDirectory, splitAt_pathBelow rfl root hne hnames]
  simp [hlast.splitAt, hlast.ne_empty, hlast.ne_dot]

/-- The path of a file below a root leads to the file. -/
theorem IsProper.resolve?_pathBelow {tree below : FileTree} {content : ByteArray}
    (hbelow : below.IsProper) (hroot : tree.resolve? root = some below)
    (hat : below.at? names = some (.file content)) :
    tree.resolve? (pathBelow root names) = some (.file content) := by
  obtain ⟨hnames, -⟩ := hbelow.of_at? hat
  by_cases hne : names = []
  · subst hne
    cases hat
    exact hroot
  · obtain ⟨-, hdescend⟩ := descend_of_resolve? hroot
    have hpath : (pathBelow root names).isEmpty = false := by
      rw [← Bool.not_eq_true, String.isEmpty_iff, ← String.toList_inj,
        toList_pathBelow root hne hnames]
      simp
    have hofList : (names.map String.toList).map String.ofList = names := by simp
    rw [resolve?, hpath, names_pathBelow root hnames, List.map_append, hofList,
      descend_append _ _ _ hnames, hdescend, Option.bind_some, hat]
    simp [endsInDirectory_pathBelow root hne hnames]

/-- What a path leads to in a proper tree is proper. -/
theorem IsProper.descend {above : List FileTree} (habove : ∀ parent ∈ above, parent.IsProper)
    (h : tree.IsProper) (hfound : FileTree.descend above tree names = some found) :
    found.IsProper := by
  fun_induction FileTree.descend above tree names with
  | case1 above tree =>
    cases hfound
    exact h
  | case2 => cases hfound
  | case3 => cases hfound
  | case4 entries name names hdots parent above ih =>
    exact ih (fun t ht => habove t (List.mem_cons_of_mem _ ht)) (habove _ (.head _)) hfound
  | case5 => cases hfound
  | case6 above entries name names hname inner hlookup ih =>
    refine ih (fun t ht => ?_) ?_ hfound
    · rcases List.mem_cons.1 ht with rfl | ht
      · exact h
      · exact habove t ht
    · have hat : (FileTree.directory entries).at? [name] = some inner := by
        rw [at?, FileTree.entries, hlookup]
        rfl
      exact (h.of_at? hat).2

/-- What stands at a path in a proper tree is proper. -/
theorem IsProper.of_resolve? {tree below : FileTree} (h : tree.IsProper)
    (hroot : tree.resolve? root = some below) : below.IsProper :=
  h.descend (fun _ ht => (List.not_mem_nil ht).elim) (descend_of_resolve? hroot).2

end MarkupCompiler.FileTree
