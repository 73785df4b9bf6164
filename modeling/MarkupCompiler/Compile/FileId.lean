import MarkupCompiler.Grammar.Source

/-!
# File ids

A file is known by an id: its path, perhaps with a query or a fragment after it. The extension of
the path says which syntax the file may use.
-/

namespace MarkupCompiler.FileId

/-- The path of a file: its id up to a question mark or number sign. -/
def pathOf (id : List Char) : List Char := id.takeWhile fun c => c != '?' && c != '#'

/-- The stretches of a text between separators. There is at least one. -/
def splitAt (isSeparator : Char → Bool) : List Char → List (List Char)
  | [] => [[]]
  | c :: rest =>
    if isSeparator c then [] :: splitAt isSeparator rest
    else match splitAt isSeparator rest with
      | part :: parts => (c :: part) :: parts
      | [] => [[c]]

/-- The names along a path. Empty names and single dots stand for nothing. -/
def names (path : List Char) : List (List Char) :=
  (splitAt (· == '/') path).filter fun name => name != [] && name != ['.']

/-- The extension of a file name: what stands after its last dot, unless that dot is the first
character. -/
def extensionOfName (name : List Char) : List Char :=
  let reversed := name.reverse
  let stem := (reversed.dropWhile (· != '.')).drop 1
  if name == ['.', '.'] || stem.isEmpty then [] else (reversed.takeWhile (· != '.')).reverse

/-- The extension of the last name along a path. -/
def extension (path : List Char) : String :=
  String.ofList (((names path).getLast?.map extensionOfName).getD [])

/-- The syntax that a file may use. -/
def dialect (id : String) : Grammar.Dialect :=
  let ext := extension (pathOf id.toList)
  if ["ts", "mts", "cts"].contains ext then { types := true, markup := false }
  else if ["js", "mjs", "cjs", "jsx"].contains ext then { types := false, markup := true }
  else { types := true, markup := true }

end MarkupCompiler.FileId
