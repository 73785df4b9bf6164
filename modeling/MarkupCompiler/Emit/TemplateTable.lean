/-!
# The table of templates

Each text of a template is declared once, under a name with its place in the table.
-/

namespace MarkupCompiler

/-- The texts of the templates that a module uses, in the order of their first use. -/
structure TemplateTable where
  texts : List String := []
  deriving DecidableEq, Repr, Inhabited

namespace TemplateTable

/-- The name of the template with an index. -/
def name (index : Nat) : String := "_tmpl$" ++ toString index

/-- The name of a text and the table with it; a text that is there already keeps its name. -/
def intern (table : TemplateTable) (text : String) : String × TemplateTable :=
  if table.texts.contains text then (name (table.texts.idxOf text), table)
  else (name table.texts.length, ⟨table.texts ++ [text]⟩)

/-- The table for a new module: no text is in it, and names are numbered from zero on again. -/
def reset (_ : TemplateTable) : TemplateTable := {}

/-- The names of a table with their texts. -/
def entries (table : TemplateTable) : List (String × String) :=
  table.texts.zipIdx.map fun (text, index) => (name index, text)

end TemplateTable

end MarkupCompiler
