import MarkupCompiler.Host.Transform

/-!
# Discovery of sources

All files below a directory that a host has compiled, in the order of their paths. Excluded
directories are not entered.
-/

namespace MarkupCompiler

/-- A file, or a directory with the names of what it holds. -/
inductive FileTree where
  | file (content : ByteArray)
  | directory (entries : List (String × FileTree))
  deriving Inhabited

namespace FileTree

/-- The entries of a directory; a file has none. -/
def entries : FileTree → List (String × FileTree)
  | file _ => []
  | directory entries => entries

/-- Puts a file or an empty directory at the end of a path, in place of a file that is there;
missing directories are made. -/
def insert (leaf : FileTree) : List String → FileTree → FileTree
  | [], tree =>
    match leaf, tree with
    | directory _, directory entries => directory entries
    | _, _ => leaf
  | name :: names, tree =>
    let inner := (tree.entries.lookup name).getD (directory [])
    directory (tree.entries.filter (·.1 != name) ++ [(name, insert leaf names inner)])

/-- What stands at the end of a path, given the directories above the tree. Two dots lead to the
directory above. -/
def descend : List FileTree → FileTree → List String → Option FileTree
  | _, tree, [] => some tree
  | _, file _, _ :: _ => none
  | above, directory entries, name :: names =>
    if name == ".." then
      match above with
      | [] => none
      | parent :: rest => descend rest parent names
    else
      match entries.lookup name with
      | none => none
      | some inner => descend (directory entries :: above) inner names

/-- Whether a path can only be that of a directory, because it ends in a slash or a dot. -/
def endsInDirectory (path : List Char) : Bool :=
  match (FileId.splitAt (· == '/') path).getLast? with
  | some name => name == [] || name == ['.']
  | none => false

/-- What stands at a path. -/
def resolve? (tree : FileTree) (path : String) : Option FileTree :=
  if path.isEmpty then none
  else
    match descend [] tree ((FileId.names path.toList).map String.ofList) with
    | some (file content) => if endsInDirectory path.toList then none else some (file content)
    | found => found

mutual

/-- The files of a tree with the names that lead to them; a directory is entered unless its name is
excluded. -/
def files (isExcluded : String → Bool) (names : List String) :
    FileTree → List (List String × ByteArray)
  | file content => [(names, content)]
  | directory entries => filesIn isExcluded names entries

/-- The files among the entries of a directory. -/
def filesIn (isExcluded : String → Bool) (names : List String) :
    List (String × FileTree) → List (List String × ByteArray)
  | [] => []
  | (name, file content) :: rest =>
    (names ++ [name], content) :: filesIn isExcluded names rest
  | (name, directory inner) :: rest =>
    (if isExcluded name then [] else filesIn isExcluded (names ++ [name]) inner)
      ++ filesIn isExcluded names rest

end

end FileTree

/-- Whether a name comes before another: by the first character in which they differ. -/
def nameBefore : List Char → List Char → Bool
  | _, [] => false
  | [], _ :: _ => true
  | a :: as, b :: bs => decide (a.toNat < b.toNat) || (a == b && nameBefore as bs)

/-- Whether a path does not come after another: by the first name in which they differ. -/
def pathOrdered : List String → List String → Bool
  | [], _ => true
  | _ :: _, [] => false
  | a :: as, b :: bs => if a == b then pathOrdered as bs else nameBefore a.toList b.toList

/-- A file that was found. -/
structure FoundFile where
  path : String
  content : ByteArray

/-- The path of what stands below a root. -/
def pathBelow (root : String) : List String → String
  | [] => root
  | name :: names =>
    let separator := if root.toList.getLast? == some '/' then "" else "/"
    pathBelow (root ++ separator ++ name) names

namespace HostOptions

/-- The files at or below a root that are to be compiled, in the order of the names along their
paths. -/
def discover (options : HostOptions) (tree : FileTree) (root : String) : List FoundFile :=
  match tree.resolve? root with
  | none => []
  | some below =>
    let files := below.files options.excludeDirs.contains []
    let ordered := files.mergeSort fun a b => pathOrdered a.1 b.1
    (ordered.map fun (names, content) => ⟨pathBelow root names, content⟩).filter
      fun found => options.chooses found.path

/-- Compiles the files at or below a root. Files that are no text are passed over. -/
def compileBelow (options : HostOptions) (isServer : Bool) (tree : FileTree) (root : String) :
    List FileOutcome :=
  options.transformAll isServer <|
    (options.discover tree root).filterMap fun found =>
      (String.fromUTF8? found.content).map (⟨found.path, ·⟩)

end HostOptions

end MarkupCompiler
