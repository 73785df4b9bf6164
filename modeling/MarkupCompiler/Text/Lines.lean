/-!
# Text between tags

Line breaks and indentation between tags are layout, not content. `clean` drops the blanks at the
inner edges of lines and the lines that are then empty. A space follows each line that is kept, as
long as a later line has something other than blanks on it.
-/

namespace MarkupCompiler.Text

/-- A text with each of its line ends, `CR LF` and `CR`, written as a line feed. -/
def unifyLineEnds : List Char → List Char
  | '\r' :: '\n' :: cs => '\n' :: unifyLineEnds cs
  | c :: cs => (if c == '\r' then '\n' else c) :: unifyLineEnds cs
  | [] => []

/-- The lines of a text: the stretches between line feeds. There is at least one. -/
def splitLines : List Char → List (List Char)
  | [] => [[]]
  | c :: cs =>
    if c == '\n' then [] :: splitLines cs
    else match splitLines cs with
      | line :: lines => (c :: line) :: lines
      | [] => [[c]]

/-- Whether a line has something other than spaces and tabs on it. -/
def isVisibleLine (line : List Char) : Bool := line.any fun c => c != ' ' && c != '\t'

/-- A line with its tabs as spaces, cut at the edges where it meets another line. -/
def trimLine (isFirst isLast : Bool) (line : List Char) : List Char :=
  let text := line.map fun c => if c == '\t' then ' ' else c
  let text := if isFirst then text else text.dropWhile (· == ' ')
  if isLast then text else (text.reverse.dropWhile (· == ' ')).reverse

/-- Lines from the given one on, trimmed and joined. -/
def joinLines : Bool → List (List Char) → List Char
  | _, [] => []
  | isFirst, line :: lines =>
    let text := trimLine isFirst lines.isEmpty line
    let gap := if !text.isEmpty && lines.any isVisibleLine then [' '] else []
    text ++ gap ++ joinLines false lines

/-- The content of a text that stands between tags. -/
def cleanChars (text : List Char) : List Char := joinLines true (splitLines (unifyLineEnds text))

/-- The content of a text that stands between tags. -/
def clean (text : String) : String := String.ofList (cleanChars text.toList)

end MarkupCompiler.Text
