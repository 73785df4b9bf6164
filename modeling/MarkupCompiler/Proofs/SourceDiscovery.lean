import MarkupCompiler.Proofs.FileTrees

/-!
# Discovery of sources is exact

The sources below a root are the files there that no excluded directory lies on the way to and that
the options choose by their paths, each once and in the order of paths. Each of them that is text is
compiled, and the filter of the host lets it pass a second time (`discovery_exact`). The names of
directories are looked at twice, once when they are entered and once in the path of each file.
Unless a path has a character that ends an id or divides names in one of the two places only, the
first look is not needed.
-/

namespace MarkupCompiler

open FileTree

/-- A file stands at the end of names below a root. -/
def FileTree.HasFileBelow (tree : FileTree) (root : String) (names : List String)
    (content : ByteArray) : Prop :=
  ∃ below, tree.resolve? root = some below ∧ below.at? names = some (.file content)

namespace HostOptions

variable (options : HostOptions)

/-! ## Files below a root -/

/-- The files below a root that no excluded directory lies on the way to, with the names that lead
to them from the root. -/
def filesBelow (below : FileTree) : List (List String × ByteArray) :=
  (below.files options.excludeDirs.contains []).mergeSort fun a b => pathOrdered a.1 b.1

variable {root : String} {tree : FileTree}

/-- What is discovered at a root are the files below it that the options choose. -/
theorem discover_eq {tree below : FileTree} (hroot : tree.resolve? root = some below) :
    options.discover tree root =
      ((options.filesBelow below).filter fun file => options.chooses (pathBelow root file.1)).map
        fun file => ⟨pathBelow root file.1, file.2⟩ := by
  simp only [discover, hroot, List.filter_map]
  rfl

/-- At a root where nothing stands, nothing is discovered. -/
theorem discover_eq_nil (hroot : tree.resolve? root = none) : options.discover tree root = [] := by
  rw [discover, hroot]

variable {options}

/-- A file below a root is there exactly if no excluded directory lies on the way to it. -/
theorem mem_filesBelow {below : FileTree} (h : below.IsProper) (names : List String)
    (content : ByteArray) :
    (names, content) ∈ options.filesBelow below ↔
      below.at? names = some (.file content) ∧
        ∀ name ∈ names.dropLast, name ∉ options.excludeDirs := by
  rw [filesBelow, List.mem_mergeSort, h.mem_files]
  simp

/-- The files below a root come in the order of the names that lead to them, and each once. -/
theorem pairwise_filesBelow {below : FileTree} (h : below.IsProper) :
    (options.filesBelow below).Pairwise fun file file' =>
      pathOrdered file.1 file'.1 = true ∧ file.1 ≠ file'.1 := by
  refine List.Pairwise.and ?_ ?_
  · exact List.pairwise_mergeSort (fun a b c => pathOrdered_trans a.1 b.1 c.1)
      (fun a b => pathOrdered_total a.1 b.1) _
  · exact ((List.mergeSort_perm _ _).pairwise_iff fun hne => hne.symm).2 (h.nodup_files _ _)

/-! ## Discovery -/

/-- The files that are discovered are those below the root that no excluded directory lies on the
way to and that are chosen by their paths. -/
theorem mem_discover (h : tree.IsProper) (root : String) (found : FoundFile) :
    found ∈ options.discover tree root ↔
      ∃ names, tree.HasFileBelow root names found.content ∧ found.path = pathBelow root names ∧
        (∀ name ∈ names.dropLast, name ∉ options.excludeDirs) ∧
        options.chooses found.path = true := by
  cases hroot : tree.resolve? root with
  | none => simp [options.discover_eq_nil hroot, HasFileBelow, hroot]
  | some below =>
    have hbelow : below.IsProper := h.of_resolve? hroot
    simp only [options.discover_eq hroot, List.mem_map, List.mem_filter, HasFileBelow, hroot]
    constructor
    · rintro ⟨⟨names, content⟩, ⟨hmem, hchosen⟩, rfl⟩
      obtain ⟨hat, hincluded⟩ := (mem_filesBelow hbelow _ _).1 hmem
      exact ⟨names, ⟨below, rfl, hat⟩, rfl, hincluded, hchosen⟩
    · rintro ⟨names, ⟨below', hbelow', hat⟩, hpath, hincluded, hchosen⟩
      cases hbelow'
      refine ⟨(names, found.content), ⟨(mem_filesBelow hbelow _ _).2 ⟨hat, hincluded⟩, ?_⟩, ?_⟩
      · rw [← hpath]
        exact hchosen
      · rw [← hpath]

/-- The path of a discovered file leads to it. -/
theorem resolve?_of_mem_discover (h : tree.IsProper) {found : FoundFile}
    (hfound : found ∈ options.discover tree root) :
    tree.resolve? found.path = some (.file found.content) := by
  obtain ⟨names, ⟨below, hroot, hat⟩, hpath, -⟩ := (mem_discover h root found).1 hfound
  rw [hpath]
  exact (h.of_resolve? hroot).resolve?_pathBelow hroot hat

/-- The paths of the discovered files come in order, and each once. -/
theorem pairwise_discover (h : tree.IsProper) (root : String) :
    ((options.discover tree root).map FoundFile.path).Pairwise PathBefore := by
  cases hroot : tree.resolve? root with
  | none =>
    rw [options.discover_eq_nil hroot]
    exact .nil
  | some below =>
    have hbelow : below.IsProper := h.of_resolve? hroot
    rw [options.discover_eq hroot, List.map_map, List.pairwise_map]
    refine ((pairwise_filesBelow hbelow).filter _).imp_of_mem ?_
    intro file file' hfile hfile' horder
    have hnames := ((mem_filesBelow hbelow _ _).1 (List.mem_of_mem_filter hfile)).1
    have hnames' := ((mem_filesBelow hbelow _ _).1 (List.mem_of_mem_filter hfile')).1
    exact pathBefore_pathBelow (descend_of_resolve? hroot).1 (hbelow.of_at? hnames).1
      (hbelow.of_at? hnames').1 horder.1 horder.2

/-! ## Compiling what was discovered -/

/-- The discovered files that are text are compiled, in their order. The filter of the host lets all
of them pass. -/
theorem compileBelow_eq (h : tree.IsProper) (isServer : Bool) (root : String) :
    options.compileBelow isServer tree root =
      (options.discover tree root).filterMap fun found =>
        (String.fromUTF8? found.content).map fun text =>
          ⟨found.path, MarkupCompiler.compile text found.path (options.compileFor isServer)⟩ := by
  rw [compileBelow, transformAll, List.map_filterMap]
  refine List.filterMap_congr fun found hfound => ?_
  obtain ⟨-, -, -, -, hchosen⟩ := (mem_discover h root found).1 hfound
  rw [Option.map_map]
  refine congrArg (Option.map · _) (funext fun text => ?_)
  simp [transform, hchosen]

/-! ## Excluded directories in paths -/

/-- A path in which each character stands for itself: none ends the path of an id, and names are
divided by slashes only. -/
def IsPlainPath (path : String) : Prop := ∀ c ∈ path.toList, c ≠ '?' ∧ c ≠ '#' ∧ c ≠ '\\'

/-- A plain path with an excluded name below the root is not chosen. -/
theorem not_chooses_of_excluded {root name : String} {names : List String}
    (hnames : ∀ name ∈ names, IsName name) (hplain : IsPlainPath (pathBelow root names))
    (hmem : name ∈ names) (hexcluded : name ∈ options.excludeDirs) :
    options.chooses (pathBelow root names) = false := by
  have hpath : FileId.pathOf (pathBelow root names).toList = (pathBelow root names).toList :=
    FileId.pathOf_eq_self fun c hc => ⟨(hplain c hc).1, (hplain c hc).2.1⟩
  -- The name is a stretch of the path between slashes, so its characters are those of the path, and
  -- none of them divides names.
  have hslash : name.toList ∈ FileId.splitAt (· == '/') (pathBelow root names).toList :=
    mem_splitAt_pathBelow rfl root hnames hmem (hnames name hmem).splitAt
  have hname : FileId.splitAt (fun c => c == '/' || c == '\\') name.toList = [name.toList] := by
    refine FileId.splitAt_eq_singleton fun c hc => ?_
    have hback := (hplain c (FileId.mem_of_mem_splitAt hslash hc)).2.2
    have hfront : c ≠ '/' := fun h => (hnames name hmem).no_slash (h ▸ hc)
    simp [hback, hfront]
  have hstretch := mem_splitAt_pathBelow rfl root hnames hmem hname
  rw [chooses, hpath, Bool.and_eq_false_iff, Bool.not_eq_false', List.any_eq_true]
  exact .inr ⟨name.toList, hstretch, by simpa using hexcluded⟩

/-! ## The statement -/

/-- The files that are discovered at a root are the files at or below it that no excluded directory
below the root lies on the way to and that the options choose by their paths. Their paths lead to
them and come in order, each once. Those that are text are compiled, in that order and for the
target that is asked for. If all paths are plain, the excluded directories need no look of their
own. -/
theorem discovery_exact (options : HostOptions) (tree : FileTree) (root : String) (isServer : Bool)
    (hproper : tree.IsProper) :
    (∀ found, found ∈ options.discover tree root ↔
      ∃ names, tree.HasFileBelow root names found.content ∧ found.path = pathBelow root names ∧
        (∀ name ∈ names.dropLast, name ∉ options.excludeDirs) ∧
        options.chooses found.path = true) ∧
      (∀ found ∈ options.discover tree root,
        tree.resolve? found.path = some (.file found.content)) ∧
      ((options.discover tree root).map FoundFile.path).Pairwise PathBefore ∧
      options.compileBelow isServer tree root =
        (options.discover tree root).filterMap (fun found =>
          (String.fromUTF8? found.content).map fun text =>
            ⟨found.path, MarkupCompiler.compile text found.path
              { options.compile with target := if isServer then .server else .client }⟩) ∧
      ((∀ names content, tree.HasFileBelow root names content →
          IsPlainPath (pathBelow root names)) →
        ∀ found, found ∈ options.discover tree root ↔
          ∃ names, tree.HasFileBelow root names found.content ∧
            found.path = pathBelow root names ∧ options.chooses found.path = true) := by
  refine ⟨mem_discover hproper root, fun found => resolve?_of_mem_discover hproper,
    pairwise_discover hproper root, compileBelow_eq hproper isServer root, fun hplain found => ?_⟩
  rw [mem_discover hproper root found]
  refine exists_congr fun names => and_congr_right fun hfile => and_congr_right fun hpath => ?_
  refine and_iff_right_of_imp fun hchosen name hname hexcluded => ?_
  obtain ⟨below, hroot, hat⟩ := hfile
  have hnames := ((hproper.of_resolve? hroot).of_at? hat).1
  -- The name of an excluded directory stands in the path, and so the path is not chosen.
  have hrejected : options.chooses (pathBelow root names) = false :=
    not_chooses_of_excluded hnames (hplain names _ ⟨below, hroot, hat⟩)
      (List.dropLast_subset names hname) hexcluded
  rw [hpath, hrejected] at hchosen
  cases hchosen

/-- A project with a source of its own and one of a package that it uses. -/
def sampleProject : FileTree :=
  .directory [("app", .directory [("src", .directory [("a.jsx", .file "<p/>".toUTF8)]),
    ("node_modules", .directory [("b.jsx", .file "<i/>".toUTF8)])])]

/-- In the project the source of its own is discovered, and that of the package is not. -/
theorem discovery_exact_sampleProject :
    sampleProject.IsProper ∧
      ⟨"app/src/a.jsx", "<p/>".toUTF8⟩ ∈ discover {} sampleProject "app" ∧
      ∀ found ∈ discover {} sampleProject "app", found.path ≠ "app/node_modules/b.jsx" := by
  have hproper : sampleProject.IsProper := by
    simp [sampleProject]
    decide
  obtain ⟨hmem, -⟩ := discovery_exact {} sampleProject "app" false hproper
  refine ⟨hproper, (hmem _).2 ⟨["src", "a.jsx"], ⟨_, rfl, rfl⟩, rfl, by decide, by decide⟩, ?_⟩
  intro found hfound hpath
  obtain ⟨-, -, -, -, hchosen⟩ := (hmem found).1 hfound
  rw [hpath] at hchosen
  revert hchosen
  decide

end HostOptions

end MarkupCompiler
