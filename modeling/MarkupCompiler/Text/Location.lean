import MarkupCompiler.Text.Bytes

/-!
# Lines and columns

A position is shown to people as a line and a column, both counted from one. Lines end at a line
feed and columns count characters.
-/

namespace MarkupCompiler

/-- A line and a column of a source, both counted from one. -/
structure Location where
  line : Nat
  column : Nat
  deriving DecidableEq, Repr, Inhabited

/-- The place of an offset in a source. An offset past the end stands for the end, and one inside a
character for the start of that character. -/
def Location.ofOffset (source : List Char) (offset : Nat) : Location :=
  let before := (Text.cutNear offset source).1
  { line := before.count '\n' + 1
    column := (before.reverse.takeWhile (· != '\n')).length + 1 }

end MarkupCompiler
