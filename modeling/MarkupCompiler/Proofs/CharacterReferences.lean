import MarkupCompiler.Text.Entity
import MarkupCompiler.Text.Escape

/-!
# Character references

A reference at the front of a text is read as its character and what stands after it is read on
(`decodeFrom_reference`); an ampersand that begins none is copied (`decodeFrom_ampersand`).

The escapes for texts and for attributes write some characters as references with a name. Both are
`writeNamed` for a list of names, and all that they have in common follows from two facts about the
list (`Undone`): the ampersand has a name, and under its name each character is read. Since the
ampersand is always written as a reference, nothing else in what is written looks like one, and
reading references gives the text back (`decode_undoes_escapes`).
-/

namespace MarkupCompiler.Text

/-! ## Ampersands in a row of characters -/

/-- An ampersand stands behind all that has none. -/
theorem exists_of_append_eq_append_cons {front rest before after : List Char} (hfront : '&' ∉ front)
    (h : front ++ rest = before ++ '&' :: after) :
    ∃ middle, before = front ++ middle ∧ rest = middle ++ '&' :: after := by
  rcases List.append_eq_append_iff.1 h with ⟨middle, rfl, hrest⟩ | ⟨middle, rfl, hafter⟩
  · exact ⟨middle, rfl, hrest⟩
  · cases middle with
    | nil => exact ⟨[], by simp, by simpa using hafter.symm⟩
    | cons c middle =>
      cases hafter
      simp at hfront

/-! ## Reading one reference -/

/-- What was part of a reference is passed over. -/
theorem decodeFrom_eq_decodeFrom_drop (skip : Nat) (text : List Char) :
    decodeFrom skip text = decodeFrom 0 (text.drop skip) := by
  induction skip generalizing text with
  | zero => rfl
  | succ skip ih =>
    cases text with
    | nil => rfl
    | cons c text => exact ih text

/-- Any character but an ampersand is copied. -/
theorem decodeFrom_cons {c : Char} (hc : c ≠ '&') (text : List Char) :
    decodeFrom 0 (c :: text) = c :: decodeFrom 0 text := by
  rw [decodeFrom, if_neg (by simpa using hc)]

/-- What is found in front of a semicolon that is near enough is the text up to it. -/
theorem upToSemicolon?_append {name : List Char} (hname : ';' ∉ name) {room : Nat}
    (hroom : byteLength name ≤ room) (rest : List Char) :
    upToSemicolon? room (name ++ ';' :: rest) = some name := by
  induction name generalizing room with
  | nil => rfl
  | cons c name ih =>
    rw [List.mem_cons, not_or] at hname
    rw [byteLength] at hroom
    rw [List.cons_append, upToSemicolon?, if_neg (by simpa using Ne.symm hname.1),
      if_pos (by omega), ih hname.2 (by omega)]
    rfl

/-- A text is found only in front of a semicolon that is near enough. -/
theorem exists_of_upToSemicolon? {room : Nat} {text name : List Char}
    (h : upToSemicolon? room text = some name) :
    ';' ∉ name ∧ byteLength name ≤ room ∧ ∃ rest, text = name ++ ';' :: rest := by
  fun_induction upToSemicolon? room text generalizing name with
  | case1 => cases h
  | case2 room c text hc =>
    cases h
    exact ⟨List.not_mem_nil, Nat.zero_le _, text, by rw [beq_iff_eq.1 hc]; rfl⟩
  | case3 room c text hc hroom ih =>
    obtain ⟨name, hfound, rfl⟩ := Option.map_eq_some_iff.1 h
    obtain ⟨hname, hlength, rest, rfl⟩ := ih hfound
    refine ⟨?_, ?_, rest, rfl⟩
    · rw [List.mem_cons, not_or]
      exact ⟨fun heq => hc (beq_iff_eq.2 heq.symm), hname⟩
    · rw [byteLength]
      omega
  | case4 => cases h

/-- What stands behind the first semicolon after a name. -/
theorem drop_semicolon (name rest : List Char) :
    (name ++ ';' :: rest).drop (name.length + 1) = rest := by
  simp [List.drop_append]

/-- A reference is read as its character. -/
theorem decodeFrom_reference {name : List Char} {c : Char} (hname : ';' ∉ name)
    (hwidth : byteLength name ≤ referenceWidth) (h : reference? name = some c) (rest : List Char) :
    decodeFrom 0 ('&' :: (name ++ ';' :: rest)) = c :: decodeFrom 0 rest := by
  rw [decodeFrom, if_pos (beq_self_eq_true _), upToSemicolon?_append hname hwidth, Option.bind_some,
    h, Option.map_some]
  dsimp only
  rw [decodeFrom_eq_decodeFrom_drop, drop_semicolon]

/-- An ampersand that begins no reference is copied. -/
theorem decodeFrom_ampersand {text : List Char}
    (h : ∀ name rest, text = name ++ ';' :: rest → ';' ∉ name → byteLength name ≤ referenceWidth →
      reference? name = none) :
    decodeFrom 0 ('&' :: text) = '&' :: decodeFrom 0 text := by
  have hnone : ((upToSemicolon? referenceWidth text).bind fun name =>
      (reference? name).map (name, ·)) = none := by
    cases hfound : upToSemicolon? referenceWidth text with
    | none => rfl
    | some name =>
      obtain ⟨hname, hwidth, rest, htext⟩ := exists_of_upToSemicolon? hfound
      rw [Option.bind_some, h name rest htext hname hwidth]
      rfl
  rw [decodeFrom, if_pos (beq_self_eq_true _), hnone]

/-! ## Escapes -/

/-- How a character is written if some characters are written as references with a name. -/
def writeNamed (names : List (Char × String)) (c : Char) : List Char :=
  match names.lookup c with
  | some name => '&' :: (name.toList ++ [';'])
  | none => [c]

/-- Names for characters, that of the ampersand among them, under which references are read as these
characters. -/
structure Undone (names : List (Char × String)) : Prop where
  ampersand : (names.lookup '&').isSome = true
  refer : ∀ entry ∈ names, (entry.2, entry.1) ∈ namedReferences

/-- A name refers to its character, is short enough, and has only letters. -/
theorem reference?_of_mem_namedReferences : ∀ entry ∈ namedReferences,
    reference? entry.1.toList = some entry.2 ∧ byteLength entry.1.toList ≤ referenceWidth ∧
      ∀ c ∈ entry.1.toList, c.isLower = true := by
  have hall : ∀ entry ∈ namedReferences, reference? entry.1.toList = some entry.2 ∧
      byteLength entry.1.toList ≤ referenceWidth ∧ entry.1.toList.all Char.isLower = true := by
    decide
  intro entry hentry
  obtain ⟨hrefers, hwidth, hletters⟩ := hall entry hentry
  exact ⟨hrefers, hwidth, List.all_eq_true.1 hletters⟩

section

variable {names : List (Char × String)} {c : Char}

/-- The first name for a character counts. -/
theorem writeNamed_cons (d : Char) (name : String) (names : List (Char × String)) (c : Char) :
    writeNamed ((d, name) :: names) c =
      if c == d then '&' :: (name.toList ++ [';']) else writeNamed names c := by
  rw [writeNamed, List.lookup_cons]
  cases c == d <;> rfl

/-- A character is written as a reference if there is a name for it, and else as it is. -/
theorem writeNamed_cases (names : List (Char × String)) (c : Char) :
    (∃ name, (c, name) ∈ names ∧ writeNamed names c = '&' :: (name.toList ++ [';'])) ∨
      names.lookup c = none ∧ writeNamed names c = [c] := by
  unfold writeNamed
  cases hfound : names.lookup c with
  | none => exact .inr ⟨rfl, rfl⟩
  | some name =>
    obtain ⟨before, after, rfl, -⟩ := List.lookup_eq_some_iff.1 hfound
    exact .inl ⟨name, by simp, rfl⟩

namespace Undone

/-- A name has no ampersand and no semicolon in it. -/
theorem notMem_name (h : Undone names) {entry : Char × String} (hentry : entry ∈ names) {d : Char}
    (hd : d.isLower = false) : d ∉ entry.2.toList := by
  obtain ⟨-, -, hletters⟩ := reference?_of_mem_namedReferences _ (h.refer entry hentry)
  intro hmem
  rw [hletters d hmem] at hd
  cases hd

/-- The ampersand is never written as it is. -/
theorem ne_ampersand (h : Undone names) (hnone : names.lookup c = none) : c ≠ '&' := by
  rintro rfl
  have hsome := h.ampersand
  rw [hnone] at hsome
  cases hsome

/-- A character is read back. -/
theorem decodeFrom_writeNamed (h : Undone names) (c : Char) (rest : List Char) :
    decodeFrom 0 (writeNamed names c ++ rest) = c :: decodeFrom 0 rest := by
  rcases writeNamed_cases names c with ⟨name, hentry, hwritten⟩ | ⟨hnone, hwritten⟩
  · obtain ⟨hrefers, hwidth, -⟩ := reference?_of_mem_namedReferences _ (h.refer _ hentry)
    rw [hwritten, List.cons_append, List.append_assoc]
    exact decodeFrom_reference (h.notMem_name hentry (by decide)) hwidth hrefers rest
  · rw [hwritten]
    exact decodeFrom_cons (h.ne_ampersand hnone) rest

/-- A text is read back. -/
theorem decodeFrom_flatMap (h : Undone names) (text : List Char) :
    decodeFrom 0 (text.flatMap (writeNamed names)) = text := by
  induction text with
  | nil => rfl
  | cons c text ih => rw [List.flatMap_cons, h.decodeFrom_writeNamed, ih]

/-- Of the characters that have names, only those that spell references are left. -/
theorem ne_of_mem_flatMap (h : Undone names) {d : Char} (hnamed : (names.lookup d).isSome = true)
    (hspell : d ≠ '&' ∧ d ≠ ';' ∧ d.isLower = false) {text : List Char} {c : Char}
    (hc : c ∈ text.flatMap (writeNamed names)) : c ≠ d := by
  rintro rfl
  obtain ⟨e, -, hmem⟩ := List.mem_flatMap.1 hc
  rcases writeNamed_cases names e with ⟨name, hentry, hwritten⟩ | ⟨hnone, hwritten⟩
  · rw [hwritten, List.mem_cons, List.mem_append, List.mem_singleton] at hmem
    rcases hmem with hamp | hletter | hend
    · exact hspell.1 hamp
    · exact h.notMem_name hentry hspell.2.2 hletter
    · exact hspell.2.1 hend
  · rw [hwritten, List.mem_singleton] at hmem
    rw [hmem, hnone] at hnamed
    cases hnamed

/-- Every ampersand that is written begins a reference. -/
theorem exists_prefix_of_ampersand (h : Undone names) {text before after : List Char}
    (htext : text.flatMap (writeNamed names) = before ++ '&' :: after) :
    ∃ entry ∈ names, '&' :: (entry.2.toList ++ [';']) <+: '&' :: after := by
  induction text generalizing before with
  | nil => simp at htext
  | cons c text ih =>
    rw [List.flatMap_cons] at htext
    rcases writeNamed_cases names c with ⟨name, hentry, hwritten⟩ | ⟨hnone, hwritten⟩
    · rw [hwritten] at htext
      cases before with
      | nil => exact ⟨_, hentry, _, htext⟩
      | cons d before =>
        -- Behind its ampersand a reference has no other.
        have hrest : '&' ∉ name.toList ++ [';'] := by
          simp [h.notMem_name hentry (d := '&') (by decide)]
        obtain ⟨middle, -, hmiddle⟩ := exists_of_append_eq_append_cons hrest (List.cons.inj htext).2
        exact ih hmiddle
    · rw [hwritten] at htext
      have hc : '&' ∉ [c] := by simpa using (h.ne_ampersand hnone).symm
      obtain ⟨middle, -, hmiddle⟩ := exists_of_append_eq_append_cons hc htext
      exact ih hmiddle

end Undone

end

/-- What is written as a reference in the text of an element. -/
def textNames : List (Char × String) := [('&', "amp"), ('<', "lt"), ('>', "gt")]

/-- What is written as a reference in an attribute. -/
def attributeNames : List (Char × String) := [('&', "amp"), ('"', "quot"), ('<', "lt")]

/-- What is written for characters of text is undone. -/
theorem undone_textNames : Undone textNames := ⟨by decide, by decide⟩

/-- What is written for characters of attributes is undone. -/
theorem undone_attributeNames : Undone attributeNames := ⟨by decide, by decide⟩

/-- Text is escaped by the names for it. -/
theorem escapeTextChar_eq : escapeTextChar = writeNamed textNames := by
  funext c
  simp only [textNames, writeNamed_cons]
  rfl

/-- Attributes are escaped by the names for them. -/
theorem escapeAttributeChar_eq : escapeAttributeChar = writeNamed attributeNames := by
  funext c
  simp only [attributeNames, writeNamed_cons]
  rfl

/-- What is written with names that are undone, as a text. -/
theorem Undone.decode_ofList {names : List (Char × String)} (h : Undone names) (text : String) :
    decode (String.ofList (text.toList.flatMap (writeNamed names))) = text := by
  rw [decode, String.toList_ofList, h.decodeFrom_flatMap, String.ofList_toList]

/-- Reading character references undoes both ways of escaping. Of the characters that would be
markup none is left in an escaped text, and an ampersand stands in it only where one of the
references begins that the escape writes. -/
theorem decode_undoes_escapes (text : String) :
    decode (escapeText text) = text ∧ decode (escapeAttribute text) = text ∧
    (∀ c ∈ (escapeText text).toList, c ≠ '<' ∧ c ≠ '>') ∧
    (∀ c ∈ (escapeAttribute text).toList, c ≠ '<' ∧ c ≠ '"') ∧
    (∀ before after, (escapeText text).toList = before ++ '&' :: after →
      ∃ entity ∈ ["&amp;", "&lt;", "&gt;"], entity.toList <+: '&' :: after) ∧
    (∀ before after, (escapeAttribute text).toList = before ++ '&' :: after →
      ∃ entity ∈ ["&amp;", "&quot;", "&lt;"], entity.toList <+: '&' :: after) := by
  simp only [escapeText_eq, escapeAttribute_eq, String.toList_ofList, escapeTextChar_eq,
    escapeAttributeChar_eq]
  refine ⟨undone_textNames.decode_ofList text, undone_attributeNames.decode_ofList text,
    fun c hc => ⟨?_, ?_⟩, fun c hc => ⟨?_, ?_⟩, fun before after htext => ?_,
    fun before after htext => ?_⟩
  · exact undone_textNames.ne_of_mem_flatMap rfl (by decide) hc
  · exact undone_textNames.ne_of_mem_flatMap rfl (by decide) hc
  · exact undone_attributeNames.ne_of_mem_flatMap rfl (by decide) hc
  · exact undone_attributeNames.ne_of_mem_flatMap rfl (by decide) hc
  · simpa [textNames] using undone_textNames.exists_prefix_of_ampersand htext
  · simpa [attributeNames] using undone_attributeNames.exists_prefix_of_ampersand htext

/-- Texts that look like a reference and like the end of an attribute. -/
theorem decode_undoes_escapes_markup :
    ('b' ∈ (escapeText "&lt;<b>").toList ∧ 'b' ≠ '<' ∧ 'b' ≠ '>') ∧
    ('>' ∈ (escapeAttribute "&\">").toList ∧ '>' ≠ '<' ∧ '>' ≠ '"') ∧
    ((escapeText "&lt;<b>").toList = "&amp;lt;".toList ++ '&' :: "lt;b&gt;".toList ∧
      ∃ entity ∈ ["&amp;", "&lt;", "&gt;"], entity.toList <+: '&' :: "lt;b&gt;".toList) ∧
    ((escapeAttribute "&\">").toList = "&amp;".toList ++ '&' :: "quot;>".toList ∧
      ∃ entity ∈ ["&amp;", "&quot;", "&lt;"], entity.toList <+: '&' :: "quot;>".toList) := by
  have htext : (escapeText "&lt;<b>").toList = "&amp;lt;".toList ++ '&' :: "lt;b&gt;".toList := by
    decide
  have hattribute : (escapeAttribute "&\">").toList = "&amp;".toList ++ '&' :: "quot;>".toList := by
    decide
  have hletter : 'b' ∈ (escapeText "&lt;<b>").toList := by decide
  have hbracket : '>' ∈ (escapeAttribute "&\">").toList := by decide
  obtain ⟨-, -, hplain, -, hreferences, -⟩ := decode_undoes_escapes "&lt;<b>"
  obtain ⟨-, -, -, hplain', -, hreferences'⟩ := decode_undoes_escapes "&\">"
  exact ⟨⟨hletter, hplain 'b' hletter⟩, ⟨hbracket, hplain' '>' hbracket⟩,
    ⟨htext, hreferences _ _ htext⟩, hattribute, hreferences' _ _ hattribute⟩

end MarkupCompiler.Text
