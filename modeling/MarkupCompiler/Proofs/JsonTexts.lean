import MarkupCompiler.Proofs.JsonTokens
import MarkupCompiler.Proofs.StringLiterals

/-!
# Texts of JSON values

The reader accepts exactly the texts that the grammar has for a value (`parse?_eq_some_iff`).

That it reads what is written goes over the rules of `Written`. After a value it leaves the blanks
that belong to the value's text, so that what it gives back is known but for blanks (`Reads`); and a
number has to end where its text ends (`EndsNumber`). Conversely, what was read is cut off the text
as something written, by induction on the depth (`readValue_sound`). The texts that values are
rendered as are among those that the grammar has.
-/

namespace MarkupCompiler.Json

open Text (CodeUnit)

/-! ## What is written is read -/

/-- A text is read as a value, whatever stands after it, and no more is left over than blanks of the
text. -/
def Reads (value : Json) (text : List Char) : Prop :=
  ∀ depth rest, 2 * text.length + 1 ≤ depth → EndsNumber rest →
    ∃ left, readValue depth (text ++ rest) = some (value, left) ∧ skipBlanks left = skipBlanks rest

/-- A text is read as items up to the bracket after it. -/
def ReadsItems (items : List Json) (text : List Char) : Prop :=
  ∀ depth rest, 2 * text.length + 2 ≤ depth →
    readItems depth (text ++ ']' :: rest) = some (items, rest)

/-- A text is read as members up to the brace after it. -/
def ReadsMembers (members : List (Option String × Json)) (text : List Char) : Prop :=
  ∀ depth rest, 2 * text.length + 2 ≤ depth →
    readMembers depth (text ++ '}' :: rest) = some (members, rest)

variable {depth : Nat} {value : Json}

/-- Blanks before a value make no difference. -/
theorem readValue_skipBlanks {text text' : List Char} (h : skipBlanks text = skipBlanks text') :
    readValue depth text = readValue depth text' := by
  cases depth with
  | zero => rfl
  | succ depth => rw [readValue, readValue, h]

/-- A character that does not belong to numbers ends one. -/
theorem endsNumber_cons {c : Char} (h : c.isDigit = false ∧ c ≠ '.' ∧ c ≠ 'e' ∧ c ≠ 'E')
    (rest : List Char) : EndsNumber (c :: rest) := by
  intro x hx
  obtain rfl := Option.some.inj hx
  exact h

/-- A value is read with the blanks around it. -/
theorem Reads.blanks {before text after : List Char} {value : Json} (hbefore : Blanks before)
    (h : Reads value text) (hafter : Blanks after) : Reads value (before ++ (text ++ after)) := by
  intro depth rest hdepth hends
  simp only [List.length_append] at hdepth
  obtain ⟨left, hread, hleft⟩ := h depth (after ++ rest) (by omega) (hends.append hafter)
  refine ⟨left, ?_, hleft.trans (skipBlanks_append hafter rest)⟩
  rw [← hread, List.append_assoc, List.append_assoc]
  exact readValue_skipBlanks (skipBlanks_append hbefore _)

/-- Where nothing is left over, all but the first level of depth does not matter. -/
theorem Reads.of_eq {text : List Char} (h : ∀ depth rest, EndsNumber rest →
      readValue (depth + 1) (text ++ rest) = some (value, rest)) : Reads value text := by
  intro depth rest hdepth hends
  obtain ⟨depth, rfl⟩ := Nat.exists_eq_add_of_le' (show 1 ≤ depth by omega)
  exact ⟨rest, h depth rest hends, rfl⟩

/-- A number is read. -/
theorem Reads.number {text : List Char} (h : Number text) : Reads (.number text) text := by
  refine .of_eq fun depth rest hends => ?_
  rw [← readNumber_append h hends]
  obtain ⟨c, tail, hc, rfl⟩ := h.opens
  have hopens : Opens c := .inr (.inr (.inr (.inr (.inr (.inr hc)))))
  -- The other values begin with a character that is neither a sign nor a digit.
  rw [List.cons_append, readValue, hopens.skipBlanks_cons]
  split
  iterate 6
    · rename_i heq
      obtain ⟨rfl, -⟩ := List.cons.inj heq
      exact absurd hc (by decide)
  · rfl

/-- A string literal is read. -/
theorem Reads.literal {text : Option String} {literal : List Char} (h : Literal text literal) :
    Reads (ofLiteral text) literal := by
  refine .of_eq fun depth rest _ => ?_
  obtain ⟨hunits⟩ := h
  rw [List.cons_append, List.append_assoc]
  show readString _ = _
  rw [List.singleton_append, readString_eq, readUnits_append hunits]
  rfl

/-- Brackets of one kind: after the opening one, the next character tells whether there is anything
inside. -/
structure Encloses (opening closing : Char) (empty : Json)
    (inside : Nat → List Char → Option (Json × List Char)) : Prop where
  not_opens : ¬Opens closing
  skip (rest : List Char) : skipBlanks (closing :: rest) = closing :: rest
  reads {text rest : List Char} {c : Char} (depth : Nat) (h : skipBlanks text = c :: rest) :
    readValue (depth + 1) (opening :: text) =
      if c = closing then some (empty, rest) else inside depth text

/-- The brackets of arrays. -/
theorem encloses_bracket : Encloses '[' ']' (.array []) fun depth text =>
    (readItems depth text).map fun read => (.array read.1, read.2) := by
  refine ⟨by unfold Opens; decide, fun _ => rfl, fun {text rest c} depth h => ?_⟩
  have hopen : skipBlanks ('[' :: text) = '[' :: text := rfl
  rw [readValue, hopen]
  simp only [h]
  split <;> split <;> simp_all

/-- The braces of objects. -/
theorem encloses_brace : Encloses '{' '}' (.object []) fun depth text =>
    (readMembers depth text).map fun read => (ofMembers read.1, read.2) := by
  refine ⟨by unfold Opens; decide, fun _ => rfl, fun {text rest c} depth h => ?_⟩
  have hopen : skipBlanks ('{' :: text) = '{' :: text := rfl
  rw [readValue, hopen]
  simp only [h]
  split <;> split <;> simp_all

section

variable {opening closing : Char} {empty value : Json} {text : List Char}
  {inside : Nat → List Char → Option (Json × List Char)}

/-- Brackets with blanks inside. -/
theorem Encloses.reads_empty (h : Encloses opening closing empty inside) (hblanks : Blanks text) :
    Reads empty (opening :: (text ++ [closing])) := by
  refine .of_eq fun depth rest _ => ?_
  have hskip : skipBlanks (text ++ closing :: rest) = closing :: rest :=
    (skipBlanks_append hblanks _).trans (h.skip rest)
  rw [List.cons_append, List.append_assoc, List.singleton_append, h.reads depth hskip, if_pos rfl]

/-- Brackets with something inside, which is read up to the closing one. -/
theorem Encloses.reads_full (h : Encloses opening closing empty inside) (hbegins : Begins text)
    (hread : ∀ depth rest, 2 * text.length + 2 ≤ depth →
      inside depth (text ++ closing :: rest) = some (value, rest)) :
    Reads value (opening :: (text ++ [closing])) := by
  intro depth rest hdepth _
  simp only [List.length_cons, List.length_append, List.length_nil] at hdepth
  obtain ⟨depth, rfl⟩ := Nat.exists_eq_add_of_le' (show 1 ≤ depth by omega)
  refine ⟨rest, ?_, rfl⟩
  obtain ⟨c, tail, hc, hskip⟩ := hbegins.append (closing :: rest)
  have hne : c ≠ closing := by
    rintro rfl
    exact h.not_opens hc
  rw [List.cons_append, List.append_assoc, List.singleton_append, h.reads depth hskip, if_neg hne,
    hread depth rest (by omega)]

end

/-- A last item is read, and the bracket after it. -/
theorem ReadsItems.last {value : Json} {text : List Char} (h : Reads value text) :
    ReadsItems [value] text := by
  intro depth rest hdepth
  obtain ⟨depth, rfl⟩ := Nat.exists_eq_add_of_le' (show 1 ≤ depth by omega)
  obtain ⟨left, hread, hleft⟩ := h depth (']' :: rest) (by omega) (endsNumber_cons (by decide) rest)
  have hskip : skipBlanks left = ']' :: rest := hleft
  rw [readItems, hread, Option.bind_eq_bind, Option.bind_some]
  dsimp only
  rw [hskip]
  rfl

/-- An item is read before the others. -/
theorem ReadsItems.cons {items : List Json} {text texts : List Char} (h : Reads value text)
    (hs : ReadsItems items texts) : ReadsItems (value :: items) (text ++ ',' :: texts) := by
  intro depth rest hdepth
  simp only [List.length_cons, List.length_append] at hdepth
  obtain ⟨depth, rfl⟩ := Nat.exists_eq_add_of_le' (show 1 ≤ depth by omega)
  -- The comma pays for the level of depth that the list itself takes.
  obtain ⟨left, hread, hleft⟩ := h depth (',' :: (texts ++ ']' :: rest)) (by omega)
    (endsNumber_cons (by decide) _)
  have hskip : skipBlanks left = ',' :: (texts ++ ']' :: rest) := hleft
  rw [List.append_assoc, List.cons_append, readItems, hread, Option.bind_eq_bind, Option.bind_some]
  dsimp only
  rw [hskip]
  show (readItems depth (texts ++ ']' :: rest) >>= _) = _
  rw [hs depth rest (by omega)]
  rfl

/-- A last member is read, and the brace after it. -/
theorem ReadsMembers.last {name : Option String} {value : Json} {nameText text : List Char}
    (hn : Name name nameText) (h : Reads value text) :
    ReadsMembers [(name, value)] (nameText ++ ':' :: text) := by
  intro depth rest hdepth
  simp only [List.length_cons, List.length_append] at hdepth
  obtain ⟨depth, rfl⟩ := Nat.exists_eq_add_of_le' (show 1 ≤ depth by omega)
  obtain ⟨left, hread, hleft⟩ := h depth ('}' :: rest) (by omega) (endsNumber_cons (by decide) rest)
  have hskip : skipBlanks left = '}' :: rest := hleft
  rw [List.append_assoc, List.cons_append, readMembers, readName_append hn, Option.bind_eq_bind,
    Option.bind_some]
  dsimp only
  rw [hread, Option.bind_eq_bind, Option.bind_some]
  dsimp only
  rw [hskip]
  rfl

/-- A member is read before the others. -/
theorem ReadsMembers.cons {name : Option String} {members : List (Option String × Json)}
    {nameText text texts : List Char} (hn : Name name nameText) (h : Reads value text)
    (hs : ReadsMembers members texts) :
    ReadsMembers ((name, value) :: members) (nameText ++ ':' :: (text ++ ',' :: texts)) := by
  intro depth rest hdepth
  simp only [List.length_cons, List.length_append] at hdepth
  obtain ⟨depth, rfl⟩ := Nat.exists_eq_add_of_le' (show 1 ≤ depth by omega)
  obtain ⟨left, hread, hleft⟩ := h depth (',' :: (texts ++ '}' :: rest)) (by omega)
    (endsNumber_cons (by decide) _)
  have hskip : skipBlanks left = ',' :: (texts ++ '}' :: rest) := hleft
  rw [List.append_assoc, List.cons_append, List.append_assoc, List.cons_append, readMembers,
    readName_append hn, Option.bind_eq_bind, Option.bind_some]
  dsimp only
  rw [hread, Option.bind_eq_bind, Option.bind_some]
  dsimp only
  rw [hskip]
  show (readMembers depth (texts ++ '}' :: rest) >>= _) = _
  rw [hs depth rest (by omega)]
  rfl

mutual

/-- A text that is written by the rules is read. -/
theorem Written.reads {value : Json} {text : List Char} : Written value text → Reads value text
  | .blanks hbefore h hafter => h.reads.blanks hbefore hafter
  | .null | .true | .false => .of_eq fun _ _ _ => rfl
  | .number h => .number h
  | .string h | .brokenString h => .literal h
  | .emptyArray h => encloses_bracket.reads_empty h
  | .array h => encloses_bracket.reads_full h.begins fun depth rest hdepth => by
    rw [h.reads depth rest hdepth]
    rfl
  | .emptyObject h => encloses_brace.reads_empty h
  | .object h => encloses_brace.reads_full h.begins fun depth rest hdepth => by
    rw [h.reads depth rest hdepth]
    rfl

/-- Items that are written by the rules are read. -/
theorem WrittenItems.reads {items : List Json} {text : List Char} :
    WrittenItems items text → ReadsItems items text
  | .last h => .last h.reads
  | .cons h hs => .cons h.reads hs.reads

/-- Members that are written by the rules are read. -/
theorem WrittenMembers.reads {members : List (Option String × Json)} {text : List Char} :
    WrittenMembers members text → ReadsMembers members text
  | .last hn h => .last hn h.reads
  | .cons hn h hs => .cons hn h.reads hs.reads

end

/-! ## What is read is written -/

/-- Blanks before a text that is written belong to it. -/
theorem exists_written_of_skipBlanks {text written rest : List Char} (h : Written value written)
    (htext : skipBlanks text = written ++ rest) :
    ∃ written, Written value written ∧ text = written ++ rest := by
  obtain ⟨blanks, hblanks, heq⟩ := exists_blanks text
  exact ⟨_, .blanks hblanks h .nil, by rw [heq, htext]; simp⟩

/-- What is read as a word is that word. -/
theorem readWord_sound {word : String} {value read : Json} {text rest : List Char}
    (h : readWord word value text = some (read, rest)) :
    read = value ∧ text = word.toList ++ rest := by
  rw [readWord] at h
  split at h
  · rename_i hword
    obtain ⟨tail, rfl⟩ := List.isPrefixOf_iff_prefix.1 hword
    obtain ⟨rfl, rfl⟩ := Prod.mk.inj (Option.some.inj h)
    exact ⟨rfl, by rw [List.drop_left]⟩
  · cases h

/-- What is taken off the front of a text as a value is something written. -/
def ValuesSound (depth : Nat) : Prop :=
  ∀ text rest value, readValue depth text = some (value, rest) →
    ∃ written, Written value written ∧ text = written ++ rest

/-- What is taken off as items, and the bracket after them. -/
def ItemsSound (depth : Nat) : Prop :=
  ∀ text rest items, readItems depth text = some (items, rest) →
    ∃ written, WrittenItems items written ∧ text = written ++ ']' :: rest

/-- What is taken off as members, and the brace after them. -/
def MembersSound (depth : Nat) : Prop :=
  ∀ text rest members, readMembers depth text = some (members, rest) →
    ∃ written, WrittenMembers members written ∧ text = written ++ '}' :: rest

/-- The blanks after a value belong to it too. -/
theorem ValuesSound.skipBlanks (h : ValuesSound depth) {text rest : List Char}
    (hread : readValue depth text = some (value, rest)) :
    ∃ written, Written value written ∧ text = written ++ skipBlanks rest := by
  obtain ⟨written, hwritten, rfl⟩ := h _ _ _ hread
  obtain ⟨blanks, hblanks, heq⟩ := exists_blanks rest
  exact ⟨_, .blanks .nil hwritten hblanks, by rw [List.nil_append, List.append_assoc, ← heq]⟩

/-- What is read as a value is written, if what is read inside of it is. -/
theorem valuesSound_succ (hitems : ItemsSound depth) (hmembers : MembersSound depth) :
    ValuesSound (depth + 1) := by
  intro text rest value h
  rw [readValue] at h
  -- By how the text begins: a quote, a bracket, a brace, one of three words, or else a number.
  split at h
  · rename_i tail heq
    rw [readString_eq, Option.map_eq_some_iff] at h
    obtain ⟨⟨units, left⟩, hread, hvalue⟩ := h
    obtain ⟨rfl, rfl⟩ := Prod.mk.inj hvalue
    obtain ⟨written, hunits, rfl⟩ := readUnits_sound hread
    exact exists_written_of_skipBlanks (Literal.mk hunits).written (by rw [heq]; simp)
  · rename_i tail heq
    obtain ⟨blanks, hblanks, htail⟩ := exists_blanks tail
    split at h
    · rename_i hclose
      obtain ⟨rfl, rfl⟩ := Prod.mk.inj (Option.some.inj h)
      refine exists_written_of_skipBlanks (.emptyArray hblanks) ?_
      rw [heq, htail, hclose]
      simp
    · obtain ⟨⟨items, left⟩, hread, hvalue⟩ := Option.map_eq_some_iff.1 h
      obtain ⟨rfl, rfl⟩ := Prod.mk.inj hvalue
      obtain ⟨written, hwritten, rfl⟩ := hitems _ _ _ hread
      exact exists_written_of_skipBlanks (.array hwritten) (by rw [heq]; simp)
  · rename_i tail heq
    obtain ⟨blanks, hblanks, htail⟩ := exists_blanks tail
    split at h
    · rename_i hclose
      obtain ⟨rfl, rfl⟩ := Prod.mk.inj (Option.some.inj h)
      refine exists_written_of_skipBlanks (.emptyObject hblanks) ?_
      rw [heq, htail, hclose]
      simp
    · obtain ⟨⟨members, left⟩, hread, hvalue⟩ := Option.map_eq_some_iff.1 h
      obtain ⟨rfl, rfl⟩ := Prod.mk.inj hvalue
      obtain ⟨written, hwritten, rfl⟩ := hmembers _ _ _ hread
      exact exists_written_of_skipBlanks (.object hwritten) (by rw [heq]; simp)
  · rename_i heq
    obtain ⟨rfl, htext⟩ := readWord_sound h
    exact exists_written_of_skipBlanks .null (heq.trans htext)
  · rename_i heq
    obtain ⟨rfl, htext⟩ := readWord_sound h
    exact exists_written_of_skipBlanks .true (heq.trans htext)
  · rename_i heq
    obtain ⟨rfl, htext⟩ := readWord_sound h
    exact exists_written_of_skipBlanks .false (heq.trans htext)
  · obtain ⟨number, rfl, hnumber, htext⟩ := readNumber_sound h
    exact exists_written_of_skipBlanks (.number hnumber) htext

/-- What is read as items is written, if the first and the others are. -/
theorem itemsSound_succ (hvalues : ValuesSound depth) (hitems : ItemsSound depth) :
    ItemsSound (depth + 1) := by
  intro text rest items h
  rw [readItems] at h
  obtain ⟨⟨value, left⟩, hread, hnext⟩ := Option.bind_eq_some_iff.1 h
  obtain ⟨written, hwritten, rfl⟩ := hvalues.skipBlanks hread
  dsimp only at hnext
  split at hnext
  · rename_i heq
    obtain ⟨⟨items, left⟩, hread, hlast⟩ := Option.bind_eq_some_iff.1 hnext
    obtain ⟨rfl, rfl⟩ := Prod.mk.inj (Option.some.inj hlast)
    obtain ⟨others, hothers, rfl⟩ := hitems _ _ _ hread
    exact ⟨_, .cons hwritten hothers, by rw [heq]; simp⟩
  · rename_i heq
    obtain ⟨rfl, rfl⟩ := Prod.mk.inj (Option.some.inj hnext)
    exact ⟨_, .last hwritten, by rw [heq]⟩
  · cases hnext

/-- What is read as members is written, if the first and the others are. -/
theorem membersSound_succ (hvalues : ValuesSound depth) (hmembers : MembersSound depth) :
    MembersSound (depth + 1) := by
  intro text rest members h
  rw [readMembers] at h
  obtain ⟨⟨name, left⟩, hname, hvalue⟩ := Option.bind_eq_some_iff.1 h
  obtain ⟨nameText, hnameText, rfl⟩ := readName_sound hname
  obtain ⟨⟨value, left'⟩, hread, hnext⟩ := Option.bind_eq_some_iff.1 hvalue
  obtain ⟨written, hwritten, rfl⟩ := hvalues.skipBlanks hread
  dsimp only at hnext
  split at hnext
  · rename_i heq
    obtain ⟨⟨members, left⟩, hread, hlast⟩ := Option.bind_eq_some_iff.1 hnext
    obtain ⟨rfl, rfl⟩ := Prod.mk.inj (Option.some.inj hlast)
    obtain ⟨others, hothers, rfl⟩ := hmembers _ _ _ hread
    exact ⟨_, .cons hnameText hwritten hothers, by rw [heq]; simp⟩
  · rename_i heq
    obtain ⟨rfl, rfl⟩ := Prod.mk.inj (Option.some.inj hnext)
    exact ⟨_, .last hnameText hwritten, by rw [heq]; simp⟩
  · cases hnext

/-- At every depth, what is read is written. -/
theorem readValue_sound (depth : Nat) :
    ValuesSound depth ∧ ItemsSound depth ∧ MembersSound depth := by
  induction depth with
  | zero =>
    refine ⟨fun _ _ _ h => ?_, fun _ _ _ h => ?_, fun _ _ _ h => ?_⟩
    · rw [readValue] at h
      cases h
    · rw [readItems] at h
      cases h
    · rw [readMembers] at h
      cases h
  | succ depth ih =>
    obtain ⟨hvalues, hitems, hmembers⟩ := ih
    exact ⟨valuesSound_succ hitems hmembers, itemsSound_succ hvalues hitems,
      membersSound_succ hvalues hmembers⟩

/-- The reader accepts exactly the texts that are written by the rules. -/
theorem parse?_eq_some_iff {text : List Char} : parse? text = some value ↔ Written value text := by
  constructor
  · intro h
    obtain ⟨⟨read, rest⟩, hread, hrest⟩ := Option.bind_eq_some_iff.1 h
    obtain ⟨written, hwritten, htext⟩ := (readValue_sound _).1.skipBlanks hread
    dsimp only at hrest
    split at hrest
    · rename_i hempty
      obtain rfl := Option.some.inj hrest
      rwa [htext, List.isEmpty_iff.1 hempty, List.append_nil]
    · cases hrest
  · intro h
    obtain ⟨left, hread, hleft⟩ := h.reads (2 * text.length + 1) [] (Nat.le_refl _)
      fun c hc => by cases hc
    rw [List.append_nil] at hread
    rw [parse?, hread, Option.bind_eq_bind, Option.bind_some]
    dsimp only
    rw [hleft]
    rfl

/-! ## Rendered values -/

/-- A quoted text is a string literal. -/
theorem literal_quoteChars (text : String) : Literal (some text) (Text.quoteChars text.toList) := by
  have hunits : ∀ chars : List Char, Units (chars.map .char) (chars.flatMap Text.quoteChar) := by
    intro chars
    induction chars with
    | nil => exact .nil
    | cons c chars ih =>
      rw [List.map_cons, List.flatMap_cons]
      rcases Text.quoteChar_cases c with
        ⟨sign, hsign, hquote⟩ | ⟨hc, hquote⟩ | ⟨hc, hmark, hescape, hquote⟩
      · rw [hquote]
        exact .sign (escapeOf?_of_mem_shortEscapes _ hsign).1 ih
      · rw [hquote, ← Text.ofCode_of_lt hc]
        exact .code (Text.digitsValue?_controlDigits hc) ih
      · rw [hquote]
        exact .plain hc hmark hescape ih
  have hliteral := Literal.mk (hunits text.toList)
  rwa [Text.join?_map_char, Option.map_some, String.ofList_toList] at hliteral

/-- A quoted text is the name of a member. -/
theorem name_quoteChars (name : String) : Name (some name) (Text.quoteChars name.toList) := by
  have hname := Name.mk .nil (literal_quoteChars name) .nil
  rwa [List.append_nil] at hname

/-- A string is written as it is rendered. -/
theorem written_render_string (text : String) : Written (.string text) (render (.string text)) := by
  rw [render]
  exact .string (literal_quoteChars text)

/-- The digits of a number do not begin with a zero. -/
theorem head?_toDigits {n : Nat} (h : 0 < n) : (Nat.toDigits 10 n).head? ≠ some '0' := by
  induction n using Nat.strongRecOn with
  | ind n ih =>
    by_cases hlt : n < 10
    · have hdigit : ∀ d < 10, 0 < d → [Nat.digitChar d].head? ≠ some '0' := by decide
      rw [Nat.toDigits_of_lt_base hlt]
      exact hdigit n hlt h
    · have hfirst := ih (n / 10) (by omega) (by omega)
      obtain ⟨c, digits, hdigits⟩ :=
        List.exists_cons_of_ne_nil (Nat.toDigits_ne_nil (b := 10) (n := n / 10))
      rw [hdigits] at hfirst
      rw [Nat.toDigits_of_base_le (by decide) (Nat.not_lt.1 hlt), hdigits]
      exact hfirst

/-- A natural number is written as it is rendered. -/
theorem written_render_ofNat (n : Nat) : Written (.ofNat n) (render (.ofNat n)) := by
  have hwhole : Whole (Nat.toDigits 10 n) := by
    rcases Nat.eq_zero_or_pos n with rfl | hpos
    · exact .zero
    · have hdigits : ∀ c ∈ Nat.toDigits 10 n, c.isDigit = true := fun c =>
        Nat.isDigit_of_mem_toDigits (by decide) (by decide)
      exact .digits ⟨Nat.toDigits_ne_nil, hdigits⟩ (head?_toDigits hpos)
  have hnumber := Number.positive hwhole .none .none
  rw [List.append_nil, List.append_nil] at hnumber
  rw [ofNat, render]
  exact .number hnumber

/-- Items are written as they are rendered, if each of them is. -/
theorem writtenItems_renderItems (item : Json) (items : List Json)
    (h : ∀ other ∈ item :: items, Written other (render other)) :
    WrittenItems (item :: items) (renderItems (item :: items)) := by
  induction items generalizing item with
  | nil =>
    rw [renderItems]
    exact .last (h _ (.head _))
  | cons next items ih =>
    rw [renderItems]
    · exact .cons (h _ (.head _))
        (ih next fun other hother => h _ (List.mem_cons_of_mem _ hother))
    · exact List.cons_ne_nil _ _

/-- An array is written if its items are. -/
theorem written_render_array {items : List Json} (h : ∀ item ∈ items, Written item (render item)) :
    Written (.array items) (render (.array items)) := by
  rw [render]
  cases items with
  | nil => exact .emptyArray .nil
  | cons item items => exact .array (writtenItems_renderItems item items h)

/-- Members whose names all have a text. -/
theorem ofMembers_map (members : List (String × Json)) :
    ofMembers (members.map fun member => (some member.1, member.2)) = .object members := by
  have hmap : (members.map fun member => (some member.1, member.2)).mapM
      (fun member => member.1.map fun name => (name, member.2)) = some members := by
    induction members with
    | nil => rfl
    | cons member members ih =>
      rw [List.map_cons, List.mapM_cons, ih]
      rfl
  rw [ofMembers, hmap]

/-- Members are written as they are rendered, if each value is. -/
theorem writtenMembers_renderMembers (member : String × Json) (members : List (String × Json))
    (h : ∀ other ∈ member :: members, Written other.2 (render other.2)) :
    WrittenMembers ((member :: members).map fun member => (some member.1, member.2))
      (renderMembers (member :: members)) := by
  induction members generalizing member with
  | nil =>
    rw [renderMembers]
    exact .last (name_quoteChars member.1) (h _ (.head _))
  | cons next members ih =>
    rw [renderMembers]
    · exact .cons (name_quoteChars member.1) (h _ (.head _))
        (ih next fun other hother => h _ (List.mem_cons_of_mem _ hother))
    · exact List.cons_ne_nil _ _

/-- An object is written if the values of its members are. -/
theorem written_render_object {members : List (String × Json)}
    (h : ∀ member ∈ members, Written member.2 (render member.2)) :
    Written (.object members) (render (.object members)) := by
  rw [render]
  cases members with
  | nil => exact .emptyObject .nil
  | cons member members =>
    rw [← ofMembers_map]
    exact .object (writtenMembers_renderMembers member members h)

end MarkupCompiler.Json
