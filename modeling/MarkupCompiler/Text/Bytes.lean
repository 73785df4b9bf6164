/-!
# Texts measured in bytes

Positions in a source are offsets in bytes of its UTF-8 form. A text is a list of characters, and
this module says how many bytes it takes, cuts it at an offset, takes the part between two offsets
and replaces parts of it.
-/

namespace MarkupCompiler

/-- A stretch of a source: the offset of its first byte and the offset just after its last. -/
structure Span where
  start : Nat
  stop : Nat
  deriving DecidableEq, Repr, Inhabited

namespace Text

/-- The number of bytes of a text in UTF-8. -/
def byteLength : List Char → Nat
  | [] => 0
  | c :: cs => c.utf8Size + byteLength cs

/-- Cuts a text after exactly `n` bytes; there is no cut inside a character or past the end. -/
def cutAt? : Nat → List Char → Option (List Char × List Char)
  | 0, cs => some ([], cs)
  | _ + 1, [] => none
  | n + 1, c :: cs =>
    if c.utf8Size ≤ n + 1 then
      (cutAt? (n + 1 - c.utf8Size) cs).map fun (before, after) => (c :: before, after)
    else none

/-- Cuts a text after at most `n` bytes: an offset inside a character is moved to its start, and
one past the end to the end. -/
def cutNear : Nat → List Char → List Char × List Char
  | 0, cs => ([], cs)
  | _ + 1, [] => ([], [])
  | n + 1, c :: cs =>
    if c.utf8Size ≤ n + 1 then
      let (before, after) := cutNear (n + 1 - c.utf8Size) cs
      (c :: before, after)
    else ([], c :: cs)

/-- The part of a text that a span covers, if both its ends are ends of characters, in order. -/
def slice? (text : List Char) (span : Span) : Option (List Char) := do
  if span.start ≤ span.stop then
    let (_, after) ← cutAt? span.start text
    let (part, _) ← cutAt? (span.stop - span.start) after
    return part
  else none

/-- Whether one text occurs in another. -/
def occurs (part : List Char) : List Char → Bool
  | [] => part.isEmpty
  | c :: cs => part.isPrefixOf (c :: cs) || occurs part cs

/-- Texts in order, with a separator between neighbours. -/
def joinWith (separator : String) : List String → String
  | [] => ""
  | [text] => text
  | text :: texts => text ++ separator ++ joinWith separator texts

end Text

/-- New text for a stretch of a source. -/
structure Replacement where
  span : Span
  text : List Char
  deriving DecidableEq, Repr, Inhabited

namespace Replacement

/-- Puts one replacement in place, in a text whose first byte has the offset `base`. -/
def apply (base : Nat) (text : List Char) (r : Replacement) : List Char :=
  (Text.cutNear (r.span.start - base) text).1 ++ r.text
    ++ (Text.cutNear (r.span.stop - base) text).2

/-- Puts replacements in place from the last to the first, so that the offsets of those still to
come stay valid. Of two that start at one offset the earlier in the list is put in place first. -/
def applyAll (base : Nat) (text : List Char) (rs : List Replacement) : List Char :=
  (rs.mergeSort fun a b => decide (b.span.start ≤ a.span.start)).foldl (apply base) text

end Replacement

end MarkupCompiler
