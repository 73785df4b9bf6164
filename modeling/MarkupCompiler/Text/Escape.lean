/-!
# Escapes in HTML

How text and attribute values are written in HTML, so that a reader of HTML gets them back. The
characters with a meaning of their own are replaced one kind after the other, and ampersands first:
the references that the later replacements write have ampersands themselves. For each character of a
text it comes to the same as one replacement (`escapeText_eq`, `escapeAttribute_eq`).
-/

namespace MarkupCompiler.Text

/-- A text with another in place of each occurrence of a character. -/
def replaceChar (c : Char) (replacement text : String) : String :=
  String.ofList (text.toList.flatMap fun d => if d == c then replacement.toList else [d])

/-- A text as the text of an HTML element. -/
def escapeText (text : String) : String :=
  replaceChar '>' "&gt;" (replaceChar '<' "&lt;" (replaceChar '&' "&amp;" text))

/-- A text as the value of a double-quoted HTML attribute. -/
def escapeAttribute (text : String) : String :=
  replaceChar '<' "&lt;" (replaceChar '"' "&quot;" (replaceChar '&' "&amp;" text))

/-- How a character is written in the text of an HTML element. -/
def escapeTextChar (c : Char) : List Char :=
  if c == '&' then "&amp;".toList
  else if c == '<' then "&lt;".toList
  else if c == '>' then "&gt;".toList
  else [c]

/-- How a character is written in a double-quoted HTML attribute. -/
def escapeAttributeChar (c : Char) : List Char :=
  if c == '&' then "&amp;".toList
  else if c == '"' then "&quot;".toList
  else if c == '<' then "&lt;".toList
  else [c]

/-- A text without a character keeps its characters when the character is replaced. -/
theorem flatMap_replace_of_notMem {c : Char} {replacement text : List Char} (h : c ∉ text) :
    (text.flatMap fun d => if d == c then replacement else [d]) = text := by
  induction text with
  | nil => rfl
  | cons d text ih =>
    rw [List.mem_cons, not_or] at h
    rw [List.flatMap_cons, ih h.2, if_neg fun heq => h.1 (eq_of_beq heq).symm]
    rfl

/-- Three replacements come to one for each character, if none of them writes a character that a
later one replaces. -/
theorem replaceChar_chain {a b c : Char} {first second third : String} (hb : b ∉ first.toList)
    (hc : c ∉ first.toList) (hc' : c ∉ second.toList) (text : String) :
    replaceChar c third (replaceChar b second (replaceChar a first text)) =
      String.ofList (text.toList.flatMap fun d => if d == a then first.toList
        else if d == b then second.toList else if d == c then third.toList else [d]) := by
  unfold replaceChar
  simp only [String.toList_ofList, List.flatMap_assoc]
  refine congrArg (fun write => String.ofList (text.toList.flatMap write)) (funext fun d => ?_)
  split
  · rw [List.flatMap_assoc.symm, flatMap_replace_of_notMem hb, flatMap_replace_of_notMem hc]
  · rw [List.flatMap_singleton]
    split
    · exact flatMap_replace_of_notMem hc'
    · exact List.flatMap_singleton _ _

/-- The replacements in the text of an element come to one for each character. -/
theorem escapeText_eq (text : String) :
    escapeText text = String.ofList (text.toList.flatMap escapeTextChar) :=
  replaceChar_chain (by decide) (by decide) (by decide) text

/-- The replacements in the value of an attribute come to one for each character. -/
theorem escapeAttribute_eq (text : String) :
    escapeAttribute text = String.ofList (text.toList.flatMap escapeAttributeChar) :=
  replaceChar_chain (by decide) (by decide) (by decide) text

-- With the ampersands last, those of the references would be written out again.
example : replaceChar '&' "&amp;" (replaceChar '<' "&lt;" "<") ≠ escapeText "<" := by decide

end MarkupCompiler.Text
