import MarkupCompiler.Proofs.SourceDiscovery

/-!
# Where a root lies

Which files are discovered below a root should depend on the directory there and on the options. The
walk through the directory does not look at the root, but the paths of the files that it comes to
begin with the root, and they are read as ids of modules. So a root can hide the files below it. A
question mark or number sign in it ends the path of every file below it, so that either all of them
are chosen or none, whatever their extensions. An excluded name in it excludes all of them. Apart
from that the names below the root decide, as long as something is left of them before a question
mark or number sign (`discovery_sees_root`). One directory can therefore be read at one place and
hidden at another (`excluded_root_hides_sources`).
-/

namespace MarkupCompiler

open FileTree

/-! ## Ids that end early -/

namespace FileId

/-- An id that ends early has the same path whatever follows. -/
theorem pathOf_append_of_ends {front : List Char} (h : ∃ c ∈ front, c = '?' ∨ c = '#')
    (back : List Char) : pathOf (front ++ back) = pathOf front := by
  obtain ⟨c, hc, hends⟩ := h
  induction front with
  | nil => cases hc
  | cons d front ih =>
    rw [List.cons_append, pathOf, pathOf, List.takeWhile_cons, List.takeWhile_cons]
    split
    · rename_i hgoes
      have hmem : c ∈ front := by
        rcases List.mem_cons.1 hc with rfl | hmem
        · rcases hends with rfl | rfl <;> cases hgoes
        · exact hmem
      exact congrArg (d :: ·) (ih hmem)
    · rfl

/-- The extension of a path is that of what follows a slash, unless no name follows it. -/
theorem extension_append_slash (front back : List Char) :
    extension (front ++ '/' :: back) =
      if (names back).isEmpty then extension front else extension back := by
  rw [extension, names_append_slash]
  split
  · rename_i hback
    rw [List.isEmpty_iff.1 hback, List.append_nil, extension]
  · rename_i hback
    rw [List.getLast?_append_of_ne_nil _ fun h => hback (List.isEmpty_iff.2 h), extension]

end FileId

/-! ## Roots -/

/-- A root ends the path of every id that begins with it. -/
def EndsPaths (root : String) : Prop := ∃ c ∈ root.toList, c = '?' ∨ c = '#'

/-- Whether a character divides the names in an id. -/
abbrev dividesNames (c : Char) : Bool := c == '/' || c == '\\'

/-- A slash at the end of a root ends no path. -/
theorem endsPaths_iff_rootStem {root : String} :
    EndsPaths root ↔ ∃ c ∈ rootStem root.toList, c = '?' ∨ c = '#' := by
  rw [EndsPaths]
  rcases eq_rootStem root.toList with hroot | hroot
  · rw [← hroot]
  · constructor
    · rintro ⟨c, hc, hcut⟩
      refine ⟨c, ?_, hcut⟩
      rw [hroot, List.mem_append] at hc
      refine hc.resolve_right fun hslash => ?_
      rw [List.mem_singleton.1 hslash] at hcut
      rcases hcut with h | h <;> cases h
    · rintro ⟨c, hc, hcut⟩
      refine ⟨c, ?_, hcut⟩
      rw [hroot]
      exact List.mem_append_left _ hc

/-- What is found below a root, with its path. -/
def foundAt (root : String) (files : List (List String × ByteArray)) : List FoundFile :=
  files.map fun file => ⟨pathBelow root file.1, file.2⟩

namespace HostOptions

variable (options : HostOptions)

/-- Whether a path has an excluded name in it. -/
def excludes (path : List Char) : Bool :=
  (FileId.splitAt dividesNames path).any fun name =>
    options.excludeDirs.contains (String.ofList name)

/-- Whether the options choose a file by the names that lead to it. If nothing is left of the names
before a question mark or number sign, the extension is that of the root. -/
def choosesBelow (root : String) (names : List String) : Bool :=
  let path := FileId.pathOf (joinNames names)
  options.extensions.contains
      (FileId.extension (if (FileId.names path).isEmpty then root.toList else path)) &&
    !options.excludes path

variable {options} {root : String} {names : List String}

/-- Where something is left of the names, they decide by themselves. -/
theorem choosesBelow_eq_chooses (hnamed : FileId.names (FileId.pathOf (joinNames names)) ≠ []) :
    options.choosesBelow root names = options.chooses (String.ofList (joinNames names)) := by
  have hsome : (FileId.names (FileId.pathOf (joinNames names))).isEmpty = false := by
    rwa [← Bool.not_eq_true, List.isEmpty_iff]
  simp [choosesBelow, chooses, excludes, hsome]

/-- A root that ends paths decides for all files below it. -/
theorem chooses_pathBelow_of_endsPaths (hends : EndsPaths root) (hne : names ≠ [])
    (hnames : ∀ name ∈ names, IsName name) :
    options.chooses (pathBelow root names) = options.chooses root := by
  have hstem := endsPaths_iff_rootStem.1 hends
  have hroot : FileId.pathOf root.toList = FileId.pathOf (rootStem root.toList) := by
    rcases eq_rootStem root.toList with hroot | hroot
    · rw [← hroot]
    · rw [hroot, FileId.pathOf_append_of_ends hstem, ← hroot]
  rw [chooses, chooses, toList_pathBelow root hne hnames, FileId.pathOf_append_of_ends hstem, hroot]

/-- Below a root that ends no path, a file is chosen if the root has no excluded name in it and the
names below the root choose it. -/
theorem chooses_pathBelow (hends : ¬ EndsPaths root) (hne : names ≠ [])
    (hnames : ∀ name ∈ names, IsName name) :
    options.chooses (pathBelow root names) =
      (!options.excludes (rootStem root.toList) && options.choosesBelow root names) := by
  have hgoes : ∀ c ∈ rootStem root.toList ++ ['/'], c ≠ '?' ∧ c ≠ '#' := by
    intro c hc
    rcases List.mem_append.1 hc with hstem | hslash
    · exact not_or.1 fun hcut => hends (endsPaths_iff_rootStem.2 ⟨c, hstem, hcut⟩)
    · rw [List.mem_singleton.1 hslash]
      decide
  have hpath : FileId.pathOf (pathBelow root names).toList =
      rootStem root.toList ++ '/' :: FileId.pathOf (joinNames names) := by
    have hsplit := FileId.pathOf_append hgoes (joinNames names)
    rwa [List.append_assoc, List.append_assoc, List.singleton_append, List.singleton_append,
      ← toList_pathBelow root hne hnames] at hsplit
  have hextension : FileId.extension (rootStem root.toList) = FileId.extension root.toList := by
    rw [FileId.extension, FileId.extension, names_rootStem]
  rw [chooses, hpath, FileId.extension_append_slash, hextension, ← apply_ite FileId.extension,
    FileId.splitAt_append_cons rfl, List.any_append, Bool.not_or, Bool.and_left_comm]
  rfl

/-! ## Discovery at a root -/

/-- The names that lead to a file below a directory are names, and there is at least one. -/
theorem names_of_mem_filesBelow {entries : List (String × FileTree)}
    (hproper : (FileTree.directory entries).IsProper) {file : List String × ByteArray}
    (hfile : file ∈ options.filesBelow (.directory entries)) :
    file.1 ≠ [] ∧ ∀ name ∈ file.1, IsName name := by
  obtain ⟨hat, -⟩ := (mem_filesBelow hproper file.1 file.2).1 hfile
  refine ⟨fun hnil => ?_, (hproper.of_at? hat).1⟩
  rw [hnil] at hat
  cases hat

/-- What is discovered at a directory is what a test on the names below it lets pass, if the options
choose the paths of the files by that test. -/
theorem discover_eq_foundAt {tree : FileTree} {entries : List (String × FileTree)}
    (hproper : (FileTree.directory entries).IsProper)
    (hroot : tree.resolve? root = some (.directory entries)) {test : List String → Bool}
    (htest : ∀ names, names ≠ [] → (∀ name ∈ names, IsName name) →
      options.chooses (pathBelow root names) = test names) :
    options.discover tree root =
      foundAt root ((options.filesBelow (.directory entries)).filter fun file => test file.1) := by
  rw [options.discover_eq hroot, foundAt]
  congr 1
  refine List.filter_congr fun file hfile => ?_
  obtain ⟨hne, hnames⟩ := names_of_mem_filesBelow hproper hfile
  exact htest file.1 hne hnames

/-- What is discovered at a root depends on where the root lies. A root that ends paths is chosen or
not, and with it all files below it. Otherwise nothing is discovered at a root with an excluded name
in it, and at any other root the names below it choose the files. Two such roots of one directory
find the same files, unless nothing is left of the names of one and the extensions of the roots come
into play. -/
theorem discovery_sees_root (options : HostOptions) (tree tree' : FileTree) (root root' : String)
    (entries : List (String × FileTree)) (hproper : (FileTree.directory entries).IsProper)
    (hroot : tree.resolve? root = some (.directory entries))
    (hroot' : tree'.resolve? root' = some (.directory entries)) :
    (EndsPaths root → options.discover tree root =
      if options.chooses root then foundAt root (options.filesBelow (.directory entries)) else []) ∧
      (¬ EndsPaths root → options.excludes (rootStem root.toList) = true →
        options.discover tree root = []) ∧
      (¬ EndsPaths root → options.excludes (rootStem root.toList) = false →
        options.discover tree root = foundAt root
          ((options.filesBelow (.directory entries)).filter fun file =>
            options.choosesBelow root file.1)) ∧
      (¬ EndsPaths root → options.excludes (rootStem root.toList) = false →
        ¬ EndsPaths root' → options.excludes (rootStem root'.toList) = false →
        ((∀ file ∈ options.filesBelow (.directory entries),
            FileId.names (FileId.pathOf (joinNames file.1)) ≠ []) ∨
          options.extensions.contains (FileId.extension root.toList) =
            options.extensions.contains (FileId.extension root'.toList)) →
        ∃ found, options.discover tree root = foundAt root found ∧
          options.discover tree' root' = foundAt root' found) := by
  have hclear : ∀ (tree : FileTree) (root : String),
      tree.resolve? root = some (.directory entries) → ¬ EndsPaths root →
      options.excludes (rootStem root.toList) = false → options.discover tree root = foundAt root
        ((options.filesBelow (.directory entries)).filter fun file =>
          options.choosesBelow root file.1) := by
    intro tree root hroot hends hexcludes
    refine discover_eq_foundAt hproper hroot fun names hne hnames => ?_
    rw [chooses_pathBelow hends hne hnames, hexcludes, Bool.not_false, Bool.true_and]
  refine ⟨fun hends => ?_, fun hends hexcludes => ?_, hclear tree root hroot, ?_⟩
  · rw [discover_eq_foundAt hproper hroot fun names => chooses_pathBelow_of_endsPaths hends]
    cases options.chooses root <;> simp [foundAt]
  · have hnone : ∀ names, names ≠ [] → (∀ name ∈ names, IsName name) →
        options.chooses (pathBelow root names) = (fun _ => false) names := by
      intro names hne hnames
      rw [chooses_pathBelow hends hne hnames, hexcludes, Bool.not_true, Bool.false_and]
    rw [discover_eq_foundAt hproper hroot hnone]
    simp [foundAt]
  · intro hends hexcludes hends' hexcludes' halike
    refine ⟨_, hclear tree root hroot hends hexcludes, ?_⟩
    rw [hclear tree' root' hroot' hends' hexcludes']
    congr 1
    refine List.filter_congr fun file hfile => ?_
    -- The root only comes in where nothing is left of the names.
    by_cases hnamed : FileId.names (FileId.pathOf (joinNames file.1)) = []
    · have hextension := halike.resolve_left fun h => h file hfile hnamed
      simp only [choosesBelow, hnamed, List.isEmpty_nil, if_true, hextension]
    · rw [choosesBelow_eq_chooses hnamed, choosesBelow_eq_chooses hnamed]

/-! ## A root that hides its files -/

/-- The entries of a directory with one source. -/
def sampleEntries : List (String × FileTree) := [("a.jsx", .file "<p/>".toUTF8)]

/-- The directory at three places. -/
def scatteredTree : FileTree :=
  .directory [("lib", .directory sampleEntries), ("node_modules", .directory sampleEntries),
    ("c#", .directory sampleEntries)]

/-- The file below the directory. -/
theorem filesBelow_sampleEntries :
    filesBelow {} (.directory sampleEntries) = [(["a.jsx"], "<p/>".toUTF8)] := by
  simp [filesBelow, sampleEntries, files, filesIn]

/-- The source is discovered at a root with nothing particular in its path, and not at an excluded
one. -/
theorem discovery_sees_root_scattered :
    scatteredTree.resolve? "lib" = some (.directory sampleEntries) ∧
      scatteredTree.resolve? "node_modules" = some (.directory sampleEntries) ∧
      discover {} scatteredTree "lib" = [⟨"lib/a.jsx", "<p/>".toUTF8⟩] ∧
      discover {} scatteredTree "node_modules" = [] := by
  have hproper : (FileTree.directory sampleEntries).IsProper := by
    simp [sampleEntries]
    decide
  have hplain : ∀ root ∈ ["lib", "node_modules"], ¬ EndsPaths root := by
    simp [EndsPaths]
  refine ⟨rfl, rfl, ?_, ?_⟩
  · obtain ⟨-, -, hfound, -⟩ := discovery_sees_root {} scatteredTree scatteredTree "lib" "lib"
      sampleEntries hproper rfl rfl
    rw [hfound (hplain "lib" (by simp)) (by decide), filesBelow_sampleEntries]
    rfl
  · obtain ⟨-, hnone, -, -⟩ := discovery_sees_root {} scatteredTree scatteredTree "node_modules"
      "lib" sampleEntries hproper rfl rfl
    exact hnone (hplain "node_modules" (by simp)) (by decide)

/-- One directory at three places: at a root that is excluded, and at one with a number sign in it,
the source that is discovered at the third is not discovered. -/
theorem excluded_root_hides_sources :
    scatteredTree.resolve? "lib" = some (.directory sampleEntries) ∧
      (discover {} scatteredTree "lib").map FoundFile.path = ["lib/a.jsx"] ∧
      ∀ root ∈ ["node_modules", "c#"],
        scatteredTree.resolve? root = some (.directory sampleEntries) ∧
        discover {} scatteredTree root = [] ∧
        ¬ ∃ found, discover {} scatteredTree "lib" = foundAt "lib" found ∧
          discover {} scatteredTree root = foundAt root found := by
  have hdiscover : ∀ root, scatteredTree.resolve? root = some (.directory sampleEntries) →
      discover {} scatteredTree root = foundAt root
        ([(["a.jsx"], "<p/>".toUTF8)].filter fun file => chooses {} (pathBelow root file.1)) := by
    intro root hroot
    rw [discover_eq {} hroot, filesBelow_sampleEntries, foundAt]
  have hlib : (discover {} scatteredTree "lib").map FoundFile.path = ["lib/a.jsx"] := by
    rw [hdiscover "lib" rfl]
    rfl
  refine ⟨rfl, hlib, fun root hroot => ?_⟩
  have hplace : scatteredTree.resolve? root = some (.directory sampleEntries) := by
    rcases List.mem_pair.1 hroot with rfl | rfl <;> rfl
  have hnone : discover {} scatteredTree root = [] := by
    rw [hdiscover root hplace]
    rcases List.mem_pair.1 hroot with rfl | rfl <;> rfl
  refine ⟨hplace, hnone, ?_⟩
  rintro ⟨found, hfound, hfound'⟩
  -- Only no files at all are found nowhere, but then there would be none below the third place.
  have hempty : found = [] := by
    have hlength := congrArg List.length (hnone.symm.trans hfound')
    simpa [foundAt] using hlength.symm
  rw [hfound, hempty] at hlib
  cases hlib

end HostOptions

end MarkupCompiler
