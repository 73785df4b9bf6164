import Mathlib.Tactic.SplitIfs
import MarkupCompiler.Markup.Name
import MarkupCompiler.Text.Escape

/-!
# A reader of HTML

A template is text, and what it means is the tree that a reader of HTML makes of it. The reader here
is a plain one. It goes through the text once, from character to character, and knows start tags
with bare and double-quoted attributes, end tags, comments, and text with the four references that
escapes use; the void elements have neither content nor an end tag. Anything else it refuses.

The second half of the module says what the reader does with the stretches of text that templates
are made of: a name, an escaped value, a comment, an end tag.
-/

namespace MarkupCompiler.Html

open Syntax

/-! ## Documents -/

/-- A node of a document. An element has a label, which no reader sees: it says where the node came
from. The value of an attribute is missing if only its name is written. -/
inductive Node (α : Type) where
  | element (label : α) (tag : String) (attributes : List (String × Option String))
      (children : List (Node α))
  | text (content : String)
  | comment (content : String)

mutual

/-- A node without labels. -/
def Node.unlabelled {α : Type} : Node α → Node Unit
  | .element _ tag attributes children => .element () tag attributes (unlabelledAll children)
  | .text content => .text content
  | .comment content => .comment content

/-- Nodes without labels. -/
def unlabelledAll {α : Type} : List (Node α) → List (Node Unit)
  | [] => []
  | node :: nodes => node.unlabelled :: unlabelledAll nodes

end

/-- Nodes with neighbouring texts made one. -/
def mergeTexts {α : Type} : List (Node α) → List (Node α)
  | [] => []
  | .text content :: nodes =>
    match mergeTexts nodes with
    | .text rest :: merged => .text (content ++ rest) :: merged
    | merged => .text content :: merged
  | node :: nodes => node :: mergeTexts nodes

/-! ## Reading -/

/-- Whether a character is white space. -/
def isBlank (c : Char) : Bool := [' ', '\t', '\n', '\r', '\x0c'].contains c

/-- Whether a character can be part of a name. -/
def isNameChar (c : Char) : Bool :=
  !isBlank c && !(['<', '>', '/', '!', '=', '"', '\''].contains c)

/-- Whether a text is a name. -/
def isName (name : String) : Bool := !name.toList.isEmpty && name.toList.all isNameChar

/-- A text with its references read. -/
def unescape : List Char → List Char
  | '&' :: 'a' :: 'm' :: 'p' :: ';' :: rest => '&' :: unescape rest
  | '&' :: 'l' :: 't' :: ';' :: rest => '<' :: unescape rest
  | '&' :: 'g' :: 't' :: ';' :: rest => '>' :: unescape rest
  | '&' :: 'q' :: 'u' :: 'o' :: 't' :: ';' :: rest => '"' :: unescape rest
  | c :: rest => c :: unescape rest
  | [] => []

/-- A start tag as far as it is read. -/
structure Start where
  tag : String
  attributes : List (String × Option String)

/-- A start tag with one attribute more. -/
def Start.add (start : Start) (name : String) (value : Option String) : Start :=
  ⟨start.tag, start.attributes ++ [(name, value)]⟩

/-- What the reader is reading. Characters are kept with the last one first. -/
inductive Mode where
  /-- The content of an element: the characters since the last tag or comment. -/
  | content (raw : List Char)
  /-- A tag or comment, of which only the bracket is read. -/
  | bracket
  | tagName (name : List Char)
  /-- A start tag, between its attributes. -/
  | between (start : Start)
  | attributeName (start : Start) (name : List Char)
  /-- A start tag, behind the equals sign of an attribute. -/
  | equals (start : Start) (name : String)
  | value (start : Start) (name : String) (raw : List Char)
  | endTag (name : List Char)
  /-- The dashes that a comment begins with, of which one is read or none. -/
  | dashes (isSecond : Bool)
  | comment (raw : List Char)

/-- An element that is not closed yet, with the nodes before it. -/
structure Frame where
  start : Start
  before : List (Node Unit)

/-- The state of the reader: the nodes read so far in the innermost open element, the last one
first, and the open elements, the innermost first. -/
structure State where
  mode : Mode
  nodes : List (Node Unit)
  frames : List Frame

/-- The text node that characters make, unless there are none. -/
def textNodes (content : List Char) : List (Node Unit) :=
  if content.isEmpty then [] else [.text (String.ofList content)]

namespace State

/-- Opens an element, or adds it if it is void. -/
def opened (s : State) (start : Start) : State :=
  if isVoidTag start.tag then
    ⟨.content [], .element () start.tag start.attributes [] :: s.nodes, s.frames⟩
  else ⟨.content [], [], ⟨start, s.nodes⟩ :: s.frames⟩

/-- Closes the innermost element, which has to have the tag. -/
def closed? (s : State) (tag : String) : Option State :=
  match s.frames with
  | [] => none
  | frame :: frames =>
    if frame.start.tag == tag then
      let node := .element () tag frame.start.attributes s.nodes.reverse
      some ⟨.content [], node :: frame.before, frames⟩
    else none

/-- Reads a character of a start tag that belongs to no name and no value. -/
def inStart? (s : State) (start : Start) (c : Char) : Option State :=
  if isBlank c then some { s with mode := .between start }
  else if c == '>' then some (s.opened start)
  else none

/-- Reads a character. -/
def step (s : State) (c : Char) : Option State :=
  match s.mode with
  | .content raw =>
    if c == '<' then some ⟨.bracket, textNodes (unescape raw.reverse) ++ s.nodes, s.frames⟩
    else some { s with mode := .content (c :: raw) }
  | .bracket =>
    if c == '/' then some { s with mode := .endTag [] }
    else if c == '!' then some { s with mode := .dashes false }
    else if isNameChar c then some { s with mode := .tagName [c] }
    else none
  | .tagName name =>
    if isNameChar c then some { s with mode := .tagName (c :: name) }
    else s.inStart? ⟨String.ofList name.reverse, []⟩ c
  | .between start =>
    if isNameChar c then some { s with mode := .attributeName start [c] } else s.inStart? start c
  | .attributeName start name =>
    if isNameChar c then some { s with mode := .attributeName start (c :: name) }
    else if c == '=' then some { s with mode := .equals start (String.ofList name.reverse) }
    else s.inStart? (start.add (String.ofList name.reverse) none) c
  | .equals start name => if c == '"' then some { s with mode := .value start name [] } else none
  | .value start name raw =>
    if c == '"' then
      let value := String.ofList (unescape raw.reverse)
      some { s with mode := .between (start.add name (some value)) }
    else some { s with mode := .value start name (c :: raw) }
  | .endTag name =>
    if c == '>' then s.closed? (String.ofList name.reverse)
    else if isNameChar c then some { s with mode := .endTag (c :: name) }
    else none
  | .dashes isSecond =>
    if c == '-' then some { s with mode := if isSecond then .comment [] else .dashes true }
    else none
  | .comment raw =>
    match c, raw with
    | '>', '-' :: '-' :: content =>
      some ⟨.content [], .comment (String.ofList content.reverse) :: s.nodes, s.frames⟩
    | _, _ => some { s with mode := .comment (c :: raw) }

/-- Reads characters. -/
def run (s : State) (text : List Char) : Option State := text.foldlM step s

end State

/-- The nodes that a text writes, if all of it can be read and every element is closed. -/
def parse? (html : String) : Option (List (Node Unit)) := do
  let s ← State.run ⟨.content [], [], []⟩ html.toList
  match s.mode, s.frames with
  | .content raw, [] => some (textNodes (unescape raw.reverse) ++ s.nodes).reverse
  | _, _ => none

/-! ## Escapes are read back -/

variable {c : Char}

/-- A character that is no ampersand is no reference. -/
theorem unescape_cons (h : c ≠ '&') (rest : List Char) :
    unescape (c :: rest) = c :: unescape rest := by
  rw [unescape]
  all_goals
    rintro _ rfl
    exact absurd rfl h

/-- Text is read back if each of its characters is, whatever follows. -/
theorem unescape_flatMap {escape : Char → List Char}
    (h : ∀ c rest, unescape (escape c ++ rest) = c :: unescape rest) (text : List Char) :
    unescape (text.flatMap escape) = text := by
  induction text with
  | nil => rfl
  | cons c text ih => rw [List.flatMap_cons, h, ih]

/-- An escaped character of text is read back. -/
theorem unescape_escapeTextChar (c : Char) (rest : List Char) :
    unescape (Text.escapeTextChar c ++ rest) = c :: unescape rest := by
  by_cases hamp : c = '&'
  · subst hamp
    rfl
  by_cases hlt : c = '<'
  · subst hlt
    rfl
  by_cases hgt : c = '>'
  · subst hgt
    rfl
  -- Any other character is its own escape.
  have hplain : Text.escapeTextChar c = [c] := by simp [Text.escapeTextChar, hamp, hlt, hgt]
  rw [hplain, List.singleton_append, unescape_cons hamp]

/-- An escaped character of an attribute value is read back. -/
theorem unescape_escapeAttributeChar (c : Char) (rest : List Char) :
    unescape (Text.escapeAttributeChar c ++ rest) = c :: unescape rest := by
  by_cases hamp : c = '&'
  · subst hamp
    rfl
  by_cases hquot : c = '"'
  · subst hquot
    rfl
  by_cases hlt : c = '<'
  · subst hlt
    rfl
  have hplain : Text.escapeAttributeChar c = [c] := by
    simp [Text.escapeAttributeChar, hamp, hquot, hlt]
  rw [hplain, List.singleton_append, unescape_cons hamp]

/-- Escaped text has no bracket that opens a tag. -/
theorem ne_lt_of_mem_escapeText {text : List Char} (h : c ∈ text.flatMap Text.escapeTextChar) :
    c ≠ '<' := by
  obtain ⟨d, -, hd⟩ := List.mem_flatMap.1 h
  unfold Text.escapeTextChar at hd
  rintro rfl
  split_ifs at hd with hamp hlt hgt
  · simp at hd
  · simp at hd
  · simp at hd
  · exact hlt (beq_iff_eq.2 (List.mem_singleton.1 hd).symm)

/-- An escaped attribute value has no quote. -/
theorem ne_quote_of_mem_escapeAttribute {text : List Char}
    (h : c ∈ text.flatMap Text.escapeAttributeChar) : c ≠ '"' := by
  obtain ⟨d, -, hd⟩ := List.mem_flatMap.1 h
  unfold Text.escapeAttributeChar at hd
  rintro rfl
  split_ifs at hd with hamp hquot hlt
  · simp at hd
  · simp at hd
  · simp at hd
  · exact hquot (beq_iff_eq.2 (List.mem_singleton.1 hd).symm)

/-! ## Names -/

/-- A character of a name is none of those that end one. -/
theorem ne_of_isNameChar {c d : Char} (hc : isNameChar c = true) (hd : isNameChar d = false) :
    c ≠ d := by
  rintro rfl
  rw [hc] at hd
  cases hd

/-- A name has a first character, and each of its characters can be part of a name. -/
theorem exists_cons_of_isName {name : String} (h : isName name = true) :
    ∃ c rest, name.toList = c :: rest ∧ isNameChar c = true ∧ rest.all isNameChar = true := by
  rw [isName, Bool.and_eq_true] at h
  cases hchars : name.toList with
  | nil => simp [hchars] at h
  | cons c rest =>
    rw [hchars, List.all_cons, Bool.and_eq_true] at h
    exact ⟨c, rest, rfl, h.2⟩

/-! ## Runs of the reader -/

namespace State

/-- Without text nothing is read. -/
@[simp]
theorem run_nil (s : State) : s.run [] = some s := rfl

/-- A character is read before the rest. -/
@[simp]
theorem run_cons (s : State) (c : Char) (text : List Char) :
    s.run (c :: text) = (s.step c).bind (·.run text) := List.foldlM_cons

/-- A text is read in two goes like in one. -/
theorem run_append (s : State) (text rest : List Char) :
    s.run (text ++ rest) = (s.run text).bind (·.run rest) := List.foldlM_append

/-- A reader that keeps each character of a text has the text in the end, last character first. -/
theorem run_collect (mode : List Char → Mode) (nodes : List (Node Unit)) (frames : List Frame)
    (text : List Char)
    (h : ∀ c ∈ text, ∀ kept,
      step ⟨mode kept, nodes, frames⟩ c = some ⟨mode (c :: kept), nodes, frames⟩)
    (kept : List Char) :
    run ⟨mode kept, nodes, frames⟩ text = some ⟨mode (text.reverse ++ kept), nodes, frames⟩ := by
  induction text generalizing kept with
  | nil => rfl
  | cons c text ih =>
    have hrest := ih (fun d hd => h d (List.mem_cons_of_mem c hd)) (c :: kept)
    rw [run_cons, h c List.mem_cons_self, Option.bind_some, hrest]
    simp

variable {name : List Char} {tag : String} {s : State} {start : Start}

/-- A name is kept while the name of a tag is read. -/
theorem run_tagName (h : name.all isNameChar = true) (nodes : List (Node Unit))
    (frames : List Frame) (kept : List Char) :
    run ⟨.tagName kept, nodes, frames⟩ name =
      some ⟨.tagName (name.reverse ++ kept), nodes, frames⟩ :=
  run_collect .tagName nodes frames name
    (fun c hc _ => by simp [step, List.all_eq_true.1 h c hc]) kept

/-- A name is kept while the name of an attribute is read. -/
theorem run_attributeName (h : name.all isNameChar = true) (start : Start)
    (nodes : List (Node Unit)) (frames : List Frame) (kept : List Char) :
    run ⟨.attributeName start kept, nodes, frames⟩ name =
      some ⟨.attributeName start (name.reverse ++ kept), nodes, frames⟩ :=
  run_collect (.attributeName start) nodes frames name
    (fun c hc _ => by simp [step, List.all_eq_true.1 h c hc]) kept

/-- A name is kept while an end tag is read. -/
theorem run_endTag (h : name.all isNameChar = true) (nodes : List (Node Unit)) (frames : List Frame)
    (kept : List Char) :
    run ⟨.endTag kept, nodes, frames⟩ name =
      some ⟨.endTag (name.reverse ++ kept), nodes, frames⟩ := by
  refine run_collect .endTag nodes frames name ?_ kept
  intro c hc kept
  have hname := List.all_eq_true.1 h c hc
  have hclose : c ≠ '>' := ne_of_isNameChar hname rfl
  simp [step, hname, hclose]

/-- The reader in the content of an element, behind escaped text. -/
def reading (content : List Char) (nodes : List (Node Unit)) (frames : List Frame) : State :=
  ⟨.content (content.flatMap Text.escapeTextChar).reverse, nodes, frames⟩

/-- Escaped text is kept while the content of an element is read. -/
theorem run_text (text content : List Char) (nodes : List (Node Unit)) (frames : List Frame) :
    (reading content nodes frames).run (text.flatMap Text.escapeTextChar) =
      some (reading (content ++ text) nodes frames) := by
  have hkept := run_collect .content nodes frames (text.flatMap Text.escapeTextChar)
    (fun c hc _ => by simp [step, ne_lt_of_mem_escapeText hc])
    (content.flatMap Text.escapeTextChar).reverse
  rw [reading, reading, hkept, List.flatMap_append, List.reverse_append]

/-- A bracket ends the text before it. -/
theorem step_bracket (content : List Char) (nodes : List (Node Unit)) (frames : List Frame) :
    (reading content nodes frames).step '<' =
      some ⟨.bracket, textNodes content ++ nodes, frames⟩ := by
  simp [reading, step, unescape_flatMap unescape_escapeTextChar]

/-- The beginning of a start tag, up to the end of its name. -/
theorem run_bracket_name (h : isName tag = true) (content : List Char) (nodes : List (Node Unit))
    (frames : List Frame) :
    (reading content nodes frames).run ('<' :: tag.toList) =
      some ⟨.tagName tag.toList.reverse, textNodes content ++ nodes, frames⟩ := by
  obtain ⟨c, rest, htag, hc, hrest⟩ := exists_cons_of_isName h
  have hslash : c ≠ '/' := ne_of_isNameChar hc rfl
  have hbang : c ≠ '!' := ne_of_isNameChar hc rfl
  have hstep : step ⟨.bracket, textNodes content ++ nodes, frames⟩ c =
      some ⟨.tagName [c], textNodes content ++ nodes, frames⟩ := by
    simp [step, hc, hslash, hbang]
  rw [run_cons, step_bracket, Option.bind_some, htag, run_cons, hstep, Option.bind_some,
    run_tagName hrest, List.reverse_cons]

/-- An end tag closes the innermost element, which gets the nodes read in it. -/
theorem run_endTag_of_tag (h : isName tag = true) (content : List Char) (nodes : List (Node Unit))
    (attributes : List (String × Option String)) (before : List (Node Unit)) (frames : List Frame) :
    (reading content nodes (⟨⟨tag, attributes⟩, before⟩ :: frames)).run
        ('<' :: '/' :: (tag.toList ++ ['>'])) =
      some (reading [] (.element () tag attributes (textNodes content ++ nodes).reverse :: before)
        frames) := by
  rw [isName, Bool.and_eq_true] at h
  have hslash (s : State) (hs : s.mode = .bracket) :
      s.step '/' = some { s with mode := .endTag [] } := by
    simp [step, hs]
  rw [run_cons, step_bracket, Option.bind_some, run_cons, hslash _ rfl, Option.bind_some,
    run_append, run_endTag h.2, Option.bind_some, run_cons]
  simp [step, closed?, reading]

/-- A comment becomes a node. -/
theorem run_comment {text : List Char} (h : '>' ∉ text) (content : List Char)
    (nodes : List (Node Unit)) (frames : List Frame) :
    (reading content nodes frames).run ('<' :: '!' :: '-' :: '-' :: (text ++ ['-', '-', '>'])) =
      some (reading [] (.comment (String.ofList text) :: (textNodes content ++ nodes)) frames) := by
  -- A comment ends with a bracket behind dashes, so a text without brackets is kept.
  have hkept := run_collect .comment (textNodes content ++ nodes) frames text
    (fun c hc kept => by
      have hclose : c ≠ '>' := fun heq => h (heq ▸ hc)
      unfold step
      dsimp only
      split
      · exact absurd rfl hclose
      · rfl) []
  have hopen : run ⟨.bracket, textNodes content ++ nodes, frames⟩ ['!', '-', '-'] =
      some ⟨.comment [], textNodes content ++ nodes, frames⟩ := rfl
  have hsplit : '!' :: '-' :: '-' :: (text ++ ['-', '-', '>']) =
      ['!', '-', '-'] ++ (text ++ ['-', '-', '>']) := rfl
  rw [run_cons, step_bracket, Option.bind_some, hsplit, run_append, hopen, Option.bind_some,
    run_append, hkept, Option.bind_some]
  simp [step, reading]

/-! ## Start tags -/

/-- The start tag that has been read, where it may end. -/
def start? (s : State) : Option Start :=
  match s.mode with
  | .tagName name => some ⟨String.ofList name.reverse, []⟩
  | .between start => some start
  | .attributeName start name => some (start.add (String.ofList name.reverse) none)
  | _ => none

/-- Where a start tag may end, a blank leads to the next attribute. -/
theorem step_blank (h : s.start? = some start) :
    s.step ' ' = some { s with mode := .between start } := by
  obtain ⟨mode, nodes, frames⟩ := s
  cases mode <;> cases h <;> rfl

/-- Where a start tag may end, a bracket ends it. -/
theorem step_close (h : s.start? = some start) : s.step '>' = some (s.opened start) := by
  obtain ⟨mode, nodes, frames⟩ := s
  cases mode <;> cases h <;> rfl

/-- An attribute as it is written, with the blank before it. -/
def attributeChars : String × Option String → List Char
  | (name, none) => ' ' :: name.toList
  | (name, some value) =>
    ' ' :: (name.toList ++ '=' :: '"' :: (value.toList.flatMap Text.escapeAttributeChar ++ ['"']))

/-- The name of an attribute is read behind a blank. -/
theorem run_blank_name (h : s.start? = some start) {name : String} (hname : isName name = true) :
    s.run (' ' :: name.toList) =
      some { s with mode := .attributeName start name.toList.reverse } := by
  obtain ⟨c, rest, hchars, hc, hrest⟩ := exists_cons_of_isName hname
  have hstep : step { s with mode := .between start } c =
      some { s with mode := .attributeName start [c] } := by
    simp [step, hc]
  rw [run_cons, step_blank h, Option.bind_some, hchars, run_cons, hstep, Option.bind_some,
    run_attributeName hrest, List.reverse_cons]

/-- An attribute is added to the start tag that it is read in. -/
theorem run_attribute (h : s.start? = some start) {name : String} (hname : isName name = true)
    (value : Option String) :
    ∃ s', s.run (attributeChars (name, value)) = some s' ∧
      s'.start? = some (start.add name value) ∧ s'.nodes = s.nodes ∧ s'.frames = s.frames := by
  cases value with
  | none =>
    refine ⟨_, run_blank_name h hname, ?_, rfl, rfl⟩
    simp [start?]
  | some value =>
    have hkept := run_collect (.value start name) s.nodes s.frames
      (value.toList.flatMap Text.escapeAttributeChar)
      (fun c hc _ => by simp [step, ne_quote_of_mem_escapeAttribute hc]) []
    have hquote : run { s with mode := .attributeName start name.toList.reverse } ['=', '"'] =
        some { s with mode := .value start name [] } := by
      simp [step, isNameChar, isBlank]
    have hsplit : attributeChars (name, some value) = (' ' :: name.toList) ++
        (['=', '"'] ++ (value.toList.flatMap Text.escapeAttributeChar ++ ['"'])) := by
      simp [attributeChars]
    -- Blank and name, equals sign and quote, the escaped value, and the quote that ends it.
    refine ⟨{ s with mode := .between (start.add name (some value)) }, ?_, rfl, rfl, rfl⟩
    rw [hsplit, run_append, run_blank_name h hname, Option.bind_some, run_append, hquote,
      Option.bind_some, run_append, hkept, Option.bind_some]
    simp [step, unescape_flatMap unescape_escapeAttributeChar]

/-- Attributes are added to the start tag that they are read in. -/
theorem run_attributes {attributes : List (String × Option String)}
    (hnames : ∀ entry ∈ attributes, isName entry.1 = true) (h : s.start? = some start) :
    ∃ s', s.run (attributes.flatMap attributeChars) = some s' ∧
      s'.start? = some ⟨start.tag, start.attributes ++ attributes⟩ ∧ s'.nodes = s.nodes ∧
      s'.frames = s.frames := by
  induction attributes generalizing s start with
  | nil => exact ⟨s, rfl, by simpa using h, rfl, rfl⟩
  | cons entry attributes ih =>
    obtain ⟨name, value⟩ := entry
    obtain ⟨s₁, hrun₁, hstart₁, hnodes₁, hframes₁⟩ :=
      run_attribute h (hnames _ (.head _)) value
    obtain ⟨s₂, hrun₂, hstart₂, hnodes₂, hframes₂⟩ :=
      ih (fun a ha => hnames a (List.mem_cons_of_mem _ ha)) hstart₁
    refine ⟨s₂, ?_, ?_, hnodes₂.trans hnodes₁, hframes₂.trans hframes₁⟩
    · rw [List.flatMap_cons, run_append, hrun₁, Option.bind_some, hrun₂]
    · rw [hstart₂, Start.add, List.append_assoc, List.singleton_append]

/-- A start tag opens an element. -/
theorem run_startTag (htag : isName tag = true) {attributes : List (String × Option String)}
    (hnames : ∀ entry ∈ attributes, isName entry.1 = true) (content : List Char)
    (nodes : List (Node Unit)) (frames : List Frame) :
    (reading content nodes frames).run
        ('<' :: (tag.toList ++ (attributes.flatMap attributeChars ++ ['>']))) =
      some (opened ⟨.bracket, textNodes content ++ nodes, frames⟩ ⟨tag, attributes⟩) := by
  have hstart : start? ⟨.tagName tag.toList.reverse, textNodes content ++ nodes, frames⟩ =
      some ⟨tag, []⟩ := by
    simp [start?]
  obtain ⟨s, hrun, hs, hnodes, hframes⟩ := run_attributes hnames hstart
  rw [← List.cons_append, run_append, run_bracket_name htag, Option.bind_some, run_append, hrun,
    Option.bind_some, run_cons, step_close hs]
  obtain ⟨mode, _, _⟩ := s
  cases hnodes
  cases hframes
  rfl

end State

end MarkupCompiler.Html
