import MarkupCompiler.Emit.Block

/-!
# Elements on the server

On the server an element is a call with the chunks of its HTML and the values that stand between
them. The chunks are those of the client's template, markers included, so that the client finds its
way in what the server has sent.
-/

namespace MarkupCompiler.Emitters

open Syntax Text

/-- The value of an attribute's slot. Handlers of events have no meaning on the server. -/
def serverAttribute? (g : Emitters) (name : String) : PartValue → Emit (Option String)
  | .spread e => return some ("_$ssrSpread(" ++ (← g.expr .plain e) ++ ")")
  | value => do
    if isEventName name then return none
    else
      let text ← g.partValue .plain value
      return some ("_$ssrAttr(" ++ quote (htmlName name) ++ ", " ++ text ++ ")")

/-- The value of a child's slot. What an expression gives is escaped where it is no markup. -/
def serverChild (g : Emitters) : PartValue → Emit String
  | .expr e => return "_$escape(" ++ (← g.expr .plain e) ++ ")"
  | .spread e => return "_$escape(" ++ (← g.expr .plain e) ++ ")"
  | .markup m => g.markup m

/-- The value of a piece: none for HTML and for handlers of events. -/
def serverValue? (g : Emitters) : Piece → Emit (Option String)
  | .html _ => return none
  | .slot ⟨_, .inTag name, value⟩ => g.serverAttribute? (name.getD "") value
  | .slot ⟨_, .inContent _, value⟩ => return some (← g.serverChild value)

/-- Chunks with a text in front of the first. -/
def prependChunk (text : String) : List String → List String
  | [] => [text]
  | chunk :: chunks => (text ++ chunk) :: chunks

/-- The chunks of a skeleton, given the value of each piece. A value ends a chunk, and the marker of
its slot begins the next. -/
def chunks : List (Piece × Option String) → List String
  | [] => [""]
  | (piece, none) :: rest =>
    match piece with
    | .html text => prependChunk text (chunks rest)
    | .slot _ => chunks rest
  | (piece, some _) :: rest => "" :: prependChunk piece.templateHtml (chunks rest)

/-- An element on the server. -/
def serverElement (g : Emitters) (e : Element) : Emit String := do
  let pieces := (e.skeleton 0).pieces
  let values ← pieces.mapM g.serverValue?
  let template ← internTemplate (quoteArray (chunks (pieces.zip values)))
  return "_$ssr(" ++ joinWith ", " (template :: values.filterMap id) ++ ")"

end MarkupCompiler.Emitters
