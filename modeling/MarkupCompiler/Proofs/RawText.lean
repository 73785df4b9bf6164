import MarkupCompiler.Proofs.HtmlReader

/-!
# Raw text in HTML

In some elements a reader of HTML knows neither tags nor comments: a script, a style sheet, a text
area and a title have text between their tags and nothing else. `Reader` reads HTML with such
elements. It does what the plain reader does until the start tag of one of them is read, and then
keeps every character up to the end tag of that element. Other vocabularies inside HTML have no raw
text, so that the title of a drawing, say, is read like any element (`Content`).

The rest of the module says what the reader does with the stretches that templates are made of. In
plain content a tag or comment is read as the plain reader reads it (`Reader.run_of_run`). In raw
text it is kept, unless it is the end tag that the reader waits for (`inert_bracket`).
-/

namespace MarkupCompiler.Html

/-! ## What content is read as -/

/-- What the content of an element is read as. -/
inductive Content where
  /-- Elements of HTML, comments and text. -/
  | html
  /-- Elements of a drawing or a formula, comments and text. -/
  | foreign
  /-- Text only, in which references are read or not. -/
  | rawText (references : Bool)
  deriving DecidableEq, Repr, Inhabited

namespace Content

/-- A name with its letters put in small letters: tags of HTML differ in more than that. -/
def lowered (name : List Char) : List Char := name.map Char.toLower

/-- The tags of the elements that begin a drawing or a formula. -/
def foreignTags : List String := ["svg", "math"]

/-- The tags of the elements of drawings and formulas that have HTML in them. -/
def islandTags : List String :=
  ["foreignobject", "desc", "title", "mi", "mo", "mn", "ms", "mtext"]

/-- The tags of the elements with raw text in which no references are read. -/
def rawTextTags : List String := ["script", "style"]

/-- The tags of the elements with raw text in which references are read. -/
def escapableTags : List String := ["textarea", "title"]

/-- What the content of an element is read as, if the element stands in content that is read as
`outer`. -/
def inside (outer : Content) (tag : String) : Content :=
  let name := String.ofList (lowered tag.toList)
  match outer with
  | html =>
    if foreignTags.contains name then foreign
    else if rawTextTags.contains name then rawText false
    else if escapableTags.contains name then rawText true
    else html
  | foreign => if islandTags.contains name then html else foreign
  | rawText references => rawText references

/-- Whether content is read as text only. -/
def isRaw : Content → Bool
  | rawText _ => true
  | html | foreign => false

/-- What stands in raw text is raw text. -/
theorem isRaw_inside {outer : Content} (h : outer.isRaw = true) (tag : String) :
    (outer.inside tag).isRaw = true := by
  cases outer with
  | rawText references => rfl
  | html => cases h
  | foreign => cases h

/-- An element that begins raw text has one of four tags, none of which has a bracket in it. -/
theorem close_notMem_of_isRaw_inside {outer : Content} (houter : outer.isRaw = false) {tag : String}
    (h : (outer.inside tag).isRaw = true) : '>' ∉ lowered tag.toList := by
  have htag : String.ofList (lowered tag.toList) ∈ rawTextTags ++ escapableTags := by
    rw [List.mem_append]
    unfold inside at h
    cases outer with
    | rawText references => cases houter
    | foreign =>
      dsimp only at h
      split at h <;> cases h
    | html =>
      dsimp only at h
      split_ifs at h with hforeign hraw hescapable
      · cases h
      · exact .inl (List.contains_iff_mem.1 hraw)
      · exact .inr (List.contains_iff_mem.1 hescapable)
      · cases h
  have hchars : ∀ name ∈ rawTextTags ++ escapableTags, '>' ∉ name.toList := by decide
  simpa using hchars _ htag

end Content

/-! ## The reader -/

/-- Raw text as far as it is read: the characters before the last bracket, the last one first, and
the characters since that bracket, if there is one. -/
structure Raw where
  before : List Char
  since : Option (List Char)

namespace Raw

/-- Raw text of which nothing is read. -/
def start : Raw := ⟨[], none⟩

/-- Raw text with one more character. -/
def add (raw : Raw) (c : Char) : Raw :=
  match raw.since with
  | none => if c == '<' then ⟨raw.before, some []⟩ else ⟨c :: raw.before, none⟩
  | some since =>
    if c == '<' then ⟨since.reverse ++ '<' :: raw.before, some []⟩
    else ⟨raw.before, some (since ++ [c])⟩

/-- What the text before the last bracket means, in content of a kind. -/
def meaning (raw : Raw) (content : Content) : List Char :=
  if content == .rawText true then unescape raw.before.reverse else raw.before.reverse

/-- Whether the last bracket begins an end tag with a name. -/
def spells (raw : Raw) (tag : String) : Bool :=
  match raw.since with
  | some ('/' :: name) => Content.lowered name == Content.lowered tag.toList
  | _ => false

end Raw

/-- Whether a character can stand behind the name of an end tag. -/
def isTagEnd (c : Char) : Bool := isBlank c || c == '/' || c == '>'

/-- What the content of the innermost of some open elements is read as. -/
def contentOf : List Frame → Content
  | [] => .html
  | frame :: frames => (contentOf frames).inside frame.start.tag

/-- A reader that knows raw text: the plain reader, and the raw text of the innermost open element
if it has such text. -/
structure Reader where
  state : State
  raw : Option Raw

namespace Reader

/-- The reader where the plain reader has come to: raw text begins behind the start tag of an
element that has it. -/
def settle (s : State) : Reader :=
  match s.mode, s.nodes with
  | .content [], [] => ⟨s, if (contentOf s.frames).isRaw then some Raw.start else none⟩
  | _, _ => ⟨s, none⟩

/-- Closes the innermost element, whose raw text has been read. -/
def finish? (s : State) (raw : Raw) : Option Reader :=
  match s.frames with
  | [] => none
  | frame :: _ =>
    let text := raw.meaning (contentOf s.frames)
    ({ s with nodes := textNodes text }.closed? frame.start.tag).map settle

/-- Whether raw text is about to end: an end tag of the innermost element has been read up to its
name. -/
def isEnding (s : State) (raw : Raw) : Bool := s.frames.head?.any (raw.spells ·.start.tag)

/-- Reads a character. An end tag has nothing but its name in it. -/
def step (r : Reader) (c : Char) : Option Reader :=
  match r.raw with
  | none => (r.state.step c).map settle
  | some raw =>
    if isEnding r.state raw && isTagEnd c then if c == '>' then finish? r.state raw else none
    else some ⟨r.state, some (raw.add c)⟩

/-- Reads characters. -/
def run (r : Reader) (text : List Char) : Option Reader := text.foldlM step r

end Reader

/-- The nodes that a text writes, if all of it can be read and every element is closed. -/
def read? (html : String) : Option (List (Node Unit)) := do
  let r ← Reader.run ⟨⟨.content [], [], []⟩, none⟩ html.toList
  match r.raw, r.state.mode, r.state.frames with
  | none, .content raw, [] => some (textNodes (unescape raw.reverse) ++ r.state.nodes).reverse
  | _, _, _ => none

/-! ## Plain content -/

namespace Reader

/-- Without text nothing is read. -/
@[simp]
theorem run_nil (r : Reader) : r.run [] = some r := rfl

/-- A character is read before the rest. -/
@[simp]
theorem run_cons (r : Reader) (c : Char) (text : List Char) :
    r.run (c :: text) = (r.step c).bind (·.run text) := List.foldlM_cons

/-- A text is read in two goes like in one. -/
theorem run_append (r : Reader) (text rest : List Char) :
    r.run (text ++ rest) = (r.run text).bind (·.run rest) := List.foldlM_append

variable {s : State} {text : List Char} {frames : List Frame}

/-- No raw text begins in a tag or comment. -/
theorem settle_of_mode (h : ∀ kept, s.mode ≠ .content kept) : settle s = ⟨s, none⟩ := by
  unfold settle
  split
  · rename_i hmode _
    exact absurd hmode (h [])
  · rfl

/-- No raw text begins behind the first node of an element. -/
theorem settle_of_nodes (h : s.nodes ≠ []) : settle s = ⟨s, none⟩ := by
  unfold settle
  split
  · rename_i _ hnodes
    exact absurd hnodes h
  · rfl

/-- No raw text begins in content that is read otherwise. -/
theorem settle_of_frames (h : (contentOf s.frames).isRaw = false) : settle s = ⟨s, none⟩ := by
  unfold settle
  split
  · rw [h]
    rfl
  · rfl

/-- A character that the plain reader reads is read by the reader that knows raw text. -/
theorem step_of_step {s s' : State} {c : Char} (h : s.step c = some s') :
    step ⟨s, none⟩ c = some (settle s') := by
  rw [step, h, Option.map_some]

/-- In a tag or comment, a text without brackets that leads to its end is read as the plain reader
reads it. -/
theorem run_of_run_inTag {s s' : State} (h : s.run text = some s')
    (hs : ∀ kept, s.mode ≠ .content kept) (hs' : s'.mode = .content []) (htext : '<' ∉ text) :
    run ⟨s, none⟩ text = some (settle s') := by
  induction text generalizing s with
  | nil =>
    cases h
    exact absurd hs' (hs [])
  | cons c text ih =>
    rw [State.run_cons, Option.bind_eq_some_iff] at h
    obtain ⟨s₁, hstep, hrun⟩ := h
    rw [List.mem_cons, not_or] at htext
    rw [run_cons, step_of_step hstep, Option.bind_some]
    by_cases hmode : ∃ kept, s₁.mode = .content kept
    · -- Only a bracket leads out of content, so what is left of the text would be kept there.
      obtain ⟨kept, hkept⟩ := hmode
      obtain ⟨mode, nodes, frames⟩ := s₁
      cases hkept
      have hcollect := State.run_collect .content nodes frames text
        (fun d hd _ => by
          have hne : d ≠ '<' := fun heq => htext.2 (heq ▸ hd)
          simp [State.step, hne]) kept
      rw [hrun, Option.some.injEq] at hcollect
      rw [hcollect, Mode.content.injEq, List.append_eq_nil_iff, List.reverse_eq_nil_iff] at hs'
      obtain ⟨rfl, rfl⟩ := hs'
      cases hrun
      rfl
    · have hout : ∀ kept, s₁.mode ≠ .content kept := fun kept heq => hmode ⟨kept, heq⟩
      rw [settle_of_mode hout]
      exact ih hrun hout htext.2

/-- A tag or comment is read as the plain reader reads it. -/
theorem run_of_run {content : List Char} {nodes : List (Node Unit)}
    (h : (State.reading content nodes frames).run ('<' :: text) = some s)
    (hs : s.mode = .content []) (htext : '<' ∉ text) :
    run ⟨.reading content nodes frames, none⟩ ('<' :: text) = some (settle s) := by
  rw [State.run_cons, State.step_bracket, Option.bind_some] at h
  rw [run_cons, step_of_step (State.step_bracket content nodes frames), Option.bind_some,
    settle_of_mode (fun _ heq => Mode.noConfusion heq)]
  exact run_of_run_inTag h (fun _ heq => Mode.noConfusion heq) hs htext

/-- Where no raw text is read, a text without brackets is kept. -/
theorem run_content (hframes : (contentOf frames).isRaw = false) (nodes : List (Node Unit))
    (h : '<' ∉ text) (kept : List Char) :
    run ⟨⟨.content kept, nodes, frames⟩, none⟩ text =
      some ⟨⟨.content (text.reverse ++ kept), nodes, frames⟩, none⟩ := by
  induction text generalizing kept with
  | nil => rfl
  | cons c text ih =>
    rw [List.mem_cons, not_or] at h
    have hstep : State.step ⟨.content kept, nodes, frames⟩ c =
        some ⟨.content (c :: kept), nodes, frames⟩ := by
      simp [State.step, Ne.symm h.1]
    rw [run_cons, step_of_step hstep, Option.bind_some, settle_of_frames hframes, ih h.2]
    simp

/-- Where no raw text is read, escaped text is kept. -/
theorem run_text (hframes : (contentOf frames).isRaw = false) (text content : List Char)
    (nodes : List (Node Unit)) :
    run ⟨.reading content nodes frames, none⟩ (text.flatMap Text.escapeTextChar) =
      some ⟨.reading (content ++ text) nodes frames, none⟩ := by
  have hbracket : '<' ∉ text.flatMap Text.escapeTextChar :=
    fun h => ne_lt_of_mem_escapeText h rfl
  rw [State.reading, run_content hframes nodes hbracket, State.reading, List.flatMap_append,
    List.reverse_append]

end Reader

/-! ## Raw text -/

/-- The reader waits in raw text for an end tag with a name. -/
def State.Awaits (s : State) (name : List Char) : Prop :=
  ∃ frame frames, s.frames = frame :: frames ∧ Content.lowered frame.start.tag.toList = name

/-- Raw text in which no end tag has been begun: since the last bracket a tag has been closed. -/
def Raw.Calm (raw : Raw) : Prop := ∀ since, raw.since = some since → '>' ∈ since

/-- A text that is kept whole in raw text that ends with an end tag of a name. -/
def Inert (name text : List Char) : Prop :=
  ∀ (s : State) (raw : Raw), s.Awaits name → raw.Calm →
    ∃ raw', Reader.run ⟨s, some raw⟩ text = some ⟨s, some raw'⟩ ∧ raw'.Calm

/-- Inert texts that stand one behind the other are inert. -/
theorem Inert.append {name text text' : List Char} (h : Inert name text) (h' : Inert name text') :
    Inert name (text ++ text') := by
  intro s raw hs hraw
  obtain ⟨raw₁, hrun₁, hraw₁⟩ := h s raw hs hraw
  obtain ⟨raw₂, hrun₂, hraw₂⟩ := h' s raw₁ hs hraw₁
  exact ⟨raw₂, by rw [Reader.run_append, hrun₁, Option.bind_some, hrun₂], hraw₂⟩

/-- No text ends nothing. -/
theorem inert_nil (name : List Char) : Inert name [] := fun _ raw _ hraw => ⟨raw, rfl, hraw⟩

namespace Reader

variable {raw : Raw} {s : State}

/-- Raw text ends behind the name that is waited for. -/
theorem exists_of_isEnding {name : List Char} (hs : s.Awaits name) (h : isEnding s raw = true) :
    ∃ word, raw.since = some ('/' :: word) ∧ Content.lowered word = name := by
  obtain ⟨frame, frames, hframes, rfl⟩ := hs
  rw [isEnding, hframes, List.head?_cons, Option.any_some, Raw.spells] at h
  split at h
  · rename_i word hsince
    exact ⟨word, hsince, by simpa using h⟩
  · cases h

/-- A character is kept, unless it ends the end tag that is waited for. -/
theorem step_raw {c : Char} (h : isTagEnd c = true → isEnding s raw = false) :
    step ⟨s, some raw⟩ c = some ⟨s, some (raw.add c)⟩ := by
  rw [step]
  refine if_neg ?_
  rw [Bool.and_eq_true, not_and]
  intro hending hend
  rw [h hend] at hending
  cases hending

/-- Raw text does not end where no end tag has been begun. -/
theorem isEnding_of_calm {name : List Char} (hname : '>' ∉ name) (hs : s.Awaits name)
    (h : raw.Calm) : isEnding s raw = false := by
  rw [← Bool.not_eq_true]
  intro hending
  obtain ⟨word, hsince, rfl⟩ := exists_of_isEnding hs hending
  have hword : '>' ∈ word := by simpa using h _ hsince
  exact hname (List.mem_map.2 ⟨'>', hword, rfl⟩)

end Reader

/-- A text without brackets is inert. -/
theorem inert_of_notMem {name : List Char} (hname : '>' ∉ name) {text : List Char}
    (h : '<' ∉ text) : Inert name text := by
  intro s raw hs hraw
  induction text generalizing raw with
  | nil => exact ⟨raw, rfl, hraw⟩
  | cons c text ih =>
    rw [List.mem_cons, not_or] at h
    have hcalm : (raw.add c).Calm := by
      intro since hsince
      obtain ⟨before, since₀⟩ := raw
      cases since₀ with
      | none => simp [Raw.add, Ne.symm h.1] at hsince
      | some since₀ =>
        have heq : since₀ ++ [c] = since := by simpa [Raw.add, Ne.symm h.1] using hsince
        rw [← heq]
        exact List.mem_append_left [c] (hraw since₀ rfl)
    obtain ⟨raw', hrun, hraw'⟩ := ih h.2 (raw.add c) hcalm
    refine ⟨raw', ?_, hraw'⟩
    rw [Reader.run_cons, Reader.step_raw fun _ => Reader.isEnding_of_calm hname hs hraw,
      Option.bind_some, hrun]

/-- A bracket begins a stretch of its own. -/
theorem Raw.exists_add_bracket (raw : Raw) : ∃ before, raw.add '<' = ⟨before, some []⟩ := by
  obtain ⟨before, since⟩ := raw
  cases since with
  | none => exact ⟨before, rfl⟩
  | some since => exact ⟨_, rfl⟩

/-- A text does not spell the end tag that is waited for: no slash and name that it begins with are
those of the end tag and end there. -/
def Misses (name text : List Char) : Prop :=
  ∀ word c rest, text = '/' :: (word ++ c :: rest) → isTagEnd c = true →
    Content.lowered word ≠ name

namespace Reader

/-- Behind a bracket, a text is kept if it does not spell the end tag that is waited for. -/
theorem run_since {s : State} {name : List Char} (hs : s.Awaits name) (before : List Char)
    {text : List Char} (htext : '<' ∉ text) (hmisses : Misses name text) :
    run ⟨s, some ⟨before, some []⟩⟩ text = some ⟨s, some ⟨before, some text⟩⟩ := by
  suffices hgo : ∀ todo done, text = done ++ todo →
      run ⟨s, some ⟨before, some done⟩⟩ todo = some ⟨s, some ⟨before, some text⟩⟩ from
    hgo text [] rfl
  intro todo
  induction todo with
  | nil =>
    intro done hdone
    rw [hdone, List.append_nil]
    rfl
  | cons c todo ih =>
    intro done hdone
    have hbracket : c ≠ '<' := by
      rintro rfl
      exact htext (by rw [hdone]; simp)
    have hstep : step ⟨s, some ⟨before, some done⟩⟩ c =
        some ⟨s, some ⟨before, some (done ++ [c])⟩⟩ := by
      rw [step_raw ?_]
      · simp [Raw.add, hbracket]
      · intro hend
        rw [← Bool.not_eq_true]
        intro hending
        obtain ⟨word, hsince, hword⟩ := exists_of_isEnding hs hending
        cases hsince
        exact hmisses word c todo hdone hend hword
    rw [run_cons, hstep, Option.bind_some, ih _ (by rw [hdone, List.append_assoc]; rfl)]

end Reader

/-- A tag or comment that is not the end tag waited for is inert. -/
theorem inert_bracket {name : List Char} (hname : '>' ∉ name) {text : List Char}
    (htext : '<' ∉ text) (hclose : '>' ∈ text) (hmisses : Misses name text) :
    Inert name ('<' :: text) := by
  intro s raw hs hraw
  obtain ⟨before, hadd⟩ := raw.exists_add_bracket
  refine ⟨⟨before, some text⟩, ?_, ?_⟩
  · rw [Reader.run_cons, Reader.step_raw fun _ => Reader.isEnding_of_calm hname hs hraw,
      Option.bind_some, hadd, Reader.run_since hs before htext hmisses]
  · intro since hsince
    cases hsince
    exact hclose

/-- A text that does not begin with a slash spells no end tag. -/
theorem misses_of_head? {name text : List Char} (h : text.head? ≠ some '/') : Misses name text := by
  rintro word c rest rfl
  exact absurd rfl h

/-- A character of a name does not stand behind the name of an end tag. -/
theorem isTagEnd_of_isNameChar {c : Char} (h : isNameChar c = true) : isTagEnd c = false := by
  rw [isNameChar, Bool.and_eq_true] at h
  simp_all [isTagEnd]

/-- The name of an end tag does not end before its last character. -/
theorem misses_name {name tag : List Char} (htag : tag.all isNameChar = true) :
    Misses name ('/' :: tag) := by
  intro word c rest heq hend
  rw [List.cons.injEq] at heq
  have hc : c ∈ tag := by
    rw [heq.2]
    simp
  rw [isTagEnd_of_isNameChar (List.all_eq_true.1 htag c hc)] at hend
  cases hend

/-- An end tag with another name does not spell the one that is waited for. -/
theorem misses_endTag {name tag : List Char} (htag : tag.all isNameChar = true)
    (hne : Content.lowered tag ≠ name) : Misses name ('/' :: (tag ++ ['>'])) := by
  intro word c rest heq hend
  rw [List.cons.injEq, List.append_eq_append_iff] at heq
  obtain ⟨-, ⟨more, rfl, hmore⟩ | ⟨more, rfl, hmore⟩⟩ := heq
  · -- The word is the whole name, for there is but one character behind it.
    cases more with
    | nil =>
      rw [List.append_nil]
      exact hne
    | cons d more => simp at hmore
  · cases more with
    | nil =>
      rw [List.append_nil] at hne
      exact hne
    | cons d more =>
      -- The word ends within the name, where no tag ends.
      cases hmore
      have hc := List.all_eq_true.1 htag c (by simp)
      rw [isTagEnd_of_isNameChar hc] at hend
      cases hend

/-- Behind the name of the end tag that is waited for, a bracket closes the element. -/
theorem Reader.step_close {s : State} {raw : Raw} (h : isEnding s raw = true) :
    step ⟨s, some raw⟩ '>' = finish? s raw := by
  rw [step]
  dsimp only
  rw [h]
  rfl

/-- Kept text is at most one node. -/
theorem reverse_textNodes (content : List Char) :
    (textNodes content).reverse = textNodes content := by
  unfold textNodes
  split <;> rfl

/-- An element with raw text gets the text and nothing else. -/
theorem Reader.exists_finish? (tag : String) (attributes : List (String × Option String))
    (before : List (Node Unit)) (frames : List Frame) (raw : Raw) :
    ∃ text, finish? ⟨.content [], [], ⟨⟨tag, attributes⟩, before⟩ :: frames⟩ raw =
      some ⟨.reading [] (.element () tag attributes (textNodes text) :: before) frames, none⟩ := by
  refine ⟨raw.meaning (contentOf (⟨⟨tag, attributes⟩, before⟩ :: frames)), ?_⟩
  rw [finish?]
  generalize raw.meaning _ = text
  simp [State.closed?, reverse_textNodes, settle, State.reading]

/-- Raw text ends with the end tag of its element. -/
theorem Reader.run_endTag {tag : String} (htag : isName tag = true)
    (hname : '>' ∉ Content.lowered tag.toList) (attributes : List (String × Option String))
    (before : List (Node Unit)) (frames : List Frame) {raw : Raw} (hraw : raw.Calm) :
    ∃ text, run ⟨⟨.content [], [], ⟨⟨tag, attributes⟩, before⟩ :: frames⟩, some raw⟩
        ('<' :: '/' :: (tag.toList ++ ['>'])) =
      some ⟨.reading [] (.element () tag attributes (textNodes text) :: before) frames, none⟩ := by
  rw [isName, Bool.and_eq_true] at htag
  obtain ⟨kept, hadd⟩ := raw.exists_add_bracket
  obtain ⟨text, hfinish⟩ := exists_finish? tag attributes before frames
    ⟨kept, some ('/' :: tag.toList)⟩
  generalize hs : (⟨.content [], [], ⟨⟨tag, attributes⟩, before⟩ :: frames⟩ : State) = s
    at hfinish ⊢
  have hawaits : s.Awaits (Content.lowered tag.toList) := by
    rw [← hs]
    exact ⟨_, _, rfl, rfl⟩
  have hending : isEnding s ⟨kept, some ('/' :: tag.toList)⟩ = true := by
    rw [← hs]
    simp [isEnding, Raw.spells]
  -- The bracket opens a tag, the name spells that of the element, and `>` closes it.
  have hopen : step ⟨s, some raw⟩ '<' = some ⟨s, some ⟨kept, some []⟩⟩ := by
    rw [step_raw fun _ => isEnding_of_calm hname hawaits hraw, hadd]
  have hbracket : '<' ∉ '/' :: tag.toList := by
    intro h
    rcases List.mem_cons.1 h with h | h
    · cases h
    · exact ne_of_isNameChar (List.all_eq_true.1 htag.2 _ h) rfl rfl
  have hword := run_since hawaits kept hbracket (misses_name htag.2)
  refine ⟨text, ?_⟩
  rw [run_cons, hopen, Option.bind_some, ← List.cons_append, run_append, hword, Option.bind_some,
    run_cons, step_close hending, hfinish]
  rfl

/-- The content of an element with raw text is kept as text, up to its end tag. -/
theorem Reader.run_rawText {tag : String} (htag : isName tag = true) {frames : List Frame}
    (hframes : (contentOf frames).isRaw = false)
    (hraw : ((contentOf frames).inside tag).isRaw = true) {content : List Char}
    (hcontent : Inert (Content.lowered tag.toList) content)
    (attributes : List (String × Option String)) (before : List (Node Unit)) :
    ∃ text, run (settle (.reading [] [] (⟨⟨tag, attributes⟩, before⟩ :: frames)))
        (content ++ '<' :: '/' :: (tag.toList ++ ['>'])) =
      some ⟨.reading [] (.element () tag attributes (textNodes text) :: before) frames, none⟩ := by
  have hsettle : settle (.reading [] [] (⟨⟨tag, attributes⟩, before⟩ :: frames)) =
      ⟨⟨.content [], [], ⟨⟨tag, attributes⟩, before⟩ :: frames⟩, some Raw.start⟩ := by
    simp [settle, State.reading, contentOf, hraw]
  have hstart : Raw.start.Calm := fun since hsince => by cases hsince
  obtain ⟨raw, hrun, hcalm⟩ := hcontent
    ⟨.content [], [], ⟨⟨tag, attributes⟩, before⟩ :: frames⟩ Raw.start ⟨_, _, rfl, rfl⟩ hstart
  obtain ⟨text, hend⟩ := run_endTag htag (Content.close_notMem_of_isRaw_inside hframes hraw)
    attributes before frames hcalm
  exact ⟨text, by rw [hsettle, run_append, hrun, Option.bind_some, hend]⟩

end MarkupCompiler.Html
