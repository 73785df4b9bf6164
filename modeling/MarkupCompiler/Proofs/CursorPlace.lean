import MarkupCompiler.Grammar.Source
import MarkupCompiler.Proofs.Spelling
import MarkupCompiler.Proofs.Splicing

/-!
# Where a cursor stands

A cursor keeps offsets and what is left of the text side by side, and each reader of tokens moves
both. `Cursor.On` says that they belong together: the text from the token on is left at the offset
where the token starts, and the text after it at the offset where it ends. It also says how a
punctuator is written, that a name or text is spelled with characters of the text, and that the
offsets are in order. Every way to move a cursor keeps this.

From it follows how markup opens (`Cursor.On.opensTag`): at its offset stands an angle bracket, and
the character after that is a blank, begins a comment or a name, or closes the tag of a fragment.
-/

namespace MarkupCompiler.Text

/-! ## Places in a text -/

/-- What is left of a text at an offset. Where nothing is left, any offset will do. -/
def IsLeft (text : List Char) (offset : Nat) (rest : List Char) : Prop :=
  rest = [] ∨ ∃ before, text = before ++ rest ∧ byteLength before = offset

variable {text rest : List Char} {offset : Nat}

/-- Nothing is left at the end. -/
theorem isLeft_nil : IsLeft text offset [] := .inl rfl

/-- After a part of what is left, the offset is that many bytes further on. -/
theorem IsLeft.append (part : List Char) (h : IsLeft text offset (part ++ rest)) :
    IsLeft text (offset + byteLength part) rest := by
  rcases h with hnil | ⟨before, htext, hoffset⟩
  · exact .inl (List.append_eq_nil_iff.mp hnil).2
  · refine .inr ⟨before ++ part, ?_, ?_⟩
    · rw [htext, List.append_assoc]
    · rw [byteLength_append, hoffset]

/-- What is left of a text is a part of it. -/
theorem IsLeft.subset (h : IsLeft text offset rest) : rest ⊆ text := by
  rcases h with rfl | ⟨before, rfl, -⟩
  · exact List.nil_subset _
  · exact List.subset_append_right _ _

/-- A character further, less is left. -/
theorem IsLeft.cons {c : Char} (h : IsLeft text offset (c :: rest)) :
    IsLeft text (offset + c.utf8Size) rest := h.append [c]

/-- Several characters further, less is left. -/
theorem IsLeft.drop (h : IsLeft text offset rest) (width : Nat) :
    IsLeft text (offset + byteLength (rest.take width)) (rest.drop width) := by
  rw [← List.take_append_drop width rest] at h
  exact h.append _

/-- What is left begins with what is taken from it as long as a test holds. -/
theorem IsLeft.dropTaken (h : IsLeft text offset rest) (p : Char → Bool) :
    IsLeft text (offset + byteLength (rest.takeWhile p)) (rest.drop (rest.takeWhile p).length) := by
  have htake : rest.take (rest.takeWhile p).length = rest.takeWhile p :=
    List.prefix_iff_eq_take.mp (List.takeWhile_prefix p) |>.symm
  have hdrop := h.drop (rest.takeWhile p).length
  rwa [htake] at hdrop

/-- What is taken as long as a test holds ends where the text ends or the test fails. -/
theorem dropTaken_eq (p : Char → Bool) (rest : List Char) :
    rest.drop (rest.takeWhile p).length = [] ∨
      ∃ c tail, rest.drop (rest.takeWhile p).length = c :: tail ∧ p c = false := by
  induction rest with
  | nil => exact .inl rfl
  | cons c rest ih =>
    cases hc : p c with
    | true =>
      rw [List.takeWhile_cons_of_pos hc, List.length_cons, List.drop_succ_cons]
      exact ih
    | false =>
      rw [List.takeWhile_cons_of_neg (by simp [hc])]
      exact .inr ⟨c, rest, rfl, hc⟩

/-- What is left after a text up to a quote, and the quote. -/
theorem IsLeft.dropQuoted {quote : Char} (hquote : quote.utf8Size = 1) (h : IsLeft text offset rest)
    (hclosed : (rest.takeWhile (· != quote)).length ≠ rest.length) :
    IsLeft text (offset + byteLength (rest.takeWhile (· != quote)) + 1)
      (rest.drop ((rest.takeWhile (· != quote)).length + 1)) := by
  have hleft := h.dropTaken (· != quote)
  rcases dropTaken_eq (· != quote) rest with hnil | ⟨c, tail, hrest, hc⟩
  · -- Then the quote is missing.
    have hlength := List.drop_eq_nil_iff.mp hnil
    have htake := (List.takeWhile_prefix (l := rest) (· != quote)).length_le
    omega
  · obtain rfl : c = quote := by simpa using hc
    rw [hrest] at hleft
    rw [← List.drop_drop, hrest, List.drop_one, List.tail_cons, ← hquote]
    exact hleft.cons

end MarkupCompiler.Text

namespace MarkupCompiler.Syntax

open Text

/-! ## What the readers of tokens pass -/

variable {text : List Char} {name : String}

/-- After blanks and comments what is left of a text is still at its offset. -/
theorem isLeft_skipBlanks (state : BlankState) (offset : Nat) (newLine : Bool) (rest : List Char)
    (h : IsLeft text offset rest) :
    IsLeft text (skipBlanks state offset newLine rest).offset
      (skipBlanks state offset newLine rest).rest := by
  fun_induction skipBlanks state offset newLine rest with
  | case1 | case2 | case7 => exact h
  | case3 offset newLine rest ih => exact ih (h.append ['/', '/'])
  | case4 offset newLine rest ih => exact ih (h.append ['/', '*'])
  | case10 start offset newLine rest ih => exact ih (h.append ['*', '/'])
  | case5 | case6 | case8 | case9 | case11 =>
    rename_i ih
    exact ih h.cons

/-- The reader of blanks moves on, and a comment that is left open begins where it has been. -/
theorem le_skipBlanks (state : BlankState) (offset : Nat) (newLine : Bool) (rest : List Char)
    {first : Nat} (hfirst : first ≤ offset)
    (hstate : ∀ start, state = .blockComment start → first ≤ start ∧ start ≤ offset) :
    offset ≤ (skipBlanks state offset newLine rest).offset ∧
      ∀ start, (skipBlanks state offset newLine rest).openComment = some start →
        first ≤ start ∧ start ≤ (skipBlanks state offset newLine rest).offset := by
  fun_induction skipBlanks state offset newLine rest with
  | case1 start offset newLine =>
    refine ⟨Nat.le_refl _, fun s hs => ?_⟩
    obtain rfl := Option.some.inj hs
    exact hstate _ rfl
  | case2 | case7 => exact ⟨Nat.le_refl _, nofun⟩
  | case4 offset newLine rest ih =>
    have hrest := ih (by omega) fun start hstart => by cases hstart; omega
    exact ⟨by omega, hrest.2⟩
  -- No comment is open where the others go on.
  | case3 | case5 | case6 | case8 | case9 | case10 =>
    rename_i ih
    have hrest := ih (by omega) nofun
    exact ⟨by omega, hrest.2⟩
  | case11 start offset newLine c rest _ ih =>
    have hstart := hstate start rfl
    have hrest := ih (by omega) fun s hs => by cases hs; omega
    exact ⟨by omega, hrest.2⟩

/-- Where the text goes on after a stretch of a template and its delimiter. -/
def TemplateScan.stop (scan : TemplateScan) (offset : Nat) : Nat :=
  offset + scan.bytes + if scan.isLast then 1 else 2

/-- The last stretch of a template ends with one character. -/
theorem TemplateScan.stop_of_isLast (scan : TemplateScan) (h : scan.isLast = true) (offset : Nat) :
    scan.stop offset = offset + scan.bytes + 1 := by
  rw [stop, if_pos h]

/-- Any other stretch ends with the two that open an expression. -/
theorem TemplateScan.stop_of_not_isLast (scan : TemplateScan) (h : ¬scan.isLast = true)
    (offset : Nat) : scan.stop offset = offset + scan.bytes + 2 := by
  rw [stop, if_neg h]

/-- A character more moves the rest of a stretch by its bytes. -/
theorem TemplateScan.isLeft_add {c : Char} {units : Option (List CodeUnit)} {scan : TemplateScan}
    {offset : Nat} (h : IsLeft text (scan.stop (offset + c.utf8Size)) scan.rest) :
    IsLeft text ((scan.add c units).stop offset) (scan.add c units).rest := by
  have hstop : (scan.add c units).stop offset = scan.stop (offset + c.utf8Size) := by
    show offset + (scan.bytes + c.utf8Size) + (if scan.isLast then 1 else 2) = _
    unfold stop
    omega
  rw [hstop]
  exact h

/-- After a stretch of a template what is left of a text is still at its offset. -/
theorem isLeft_scanTemplate {text rest : List Char} {skip offset : Nat} {scan : TemplateScan}
    (hscan : scanTemplate skip rest = some scan) (h : IsLeft text offset rest) :
    IsLeft text (scan.stop offset) scan.rest := by
  fun_induction scanTemplate skip rest generalizing offset scan with
  | case1 => cases hscan
  | case3 c rest hquote =>
    obtain rfl := eq_of_beq hquote
    cases hscan
    exact h.cons
  | case4 c rest _ hdollar =>
    rw [Bool.and_eq_true, beq_iff_eq, beq_iff_eq] at hdollar
    obtain ⟨rfl, hbrace⟩ := hdollar
    obtain ⟨rest, rfl⟩ := List.head?_eq_some_iff.mp hbrace
    cases hscan
    exact h.append ['$', '\x7b']
  -- In all other cases a character is added in front of the rest.
  | case2 | case5 | case6 | case7 | case8 =>
    rename_i ih
    obtain ⟨tail, htail, rfl⟩ := Option.map_eq_some_iff.mp hscan
    exact TemplateScan.isLeft_add (ih htail h.cons)

/-- After a regular expression what is left of a text is still at its offset. -/
theorem isLeft_scanPattern {text pattern rest : List Char} {inClass escaped : Bool}
    {offset bytes : Nat} (hscan : scanPattern inClass escaped pattern = some (bytes, rest))
    (h : IsLeft text offset pattern) : IsLeft text (offset + bytes) rest := by
  fun_induction scanPattern inClass escaped pattern generalizing offset bytes with
  | case1 => cases hscan
  | case2 => cases hscan
  | case3 inClass c pattern _ ih =>
    obtain ⟨⟨bytes, rest⟩, htail, heq⟩ := Option.map_eq_some_iff.mp hscan
    cases heq
    rw [Nat.add_comm bytes, ← Nat.add_assoc]
    exact ih htail h.cons
  | case4 inClass escaped c pattern _ _ hslash =>
    rw [Bool.and_eq_true, beq_iff_eq] at hslash
    obtain ⟨rfl, -⟩ := hslash
    cases hscan
    exact h.cons
  | case5 inClass escaped c pattern _ _ _ inClass' =>
    rename_i ih
    obtain ⟨⟨bytes, rest⟩, htail, heq⟩ := Option.map_eq_some_iff.mp hscan
    cases heq
    rw [Nat.add_comm bytes, ← Nat.add_assoc]
    exact ih htail h.cons

/-! ## What a token is written as -/

/-- A punctuator of a list is found where it is written. -/
theorem eq_append_of_scanPunct {puncts : List Punct} {p : Punct}
    (h : scanPunct? puncts text = some p) : text = p.text.toList ++ text.drop p.text.length := by
  have hbegins : p.text.toList.isPrefixOf text = true := by
    have hfound := List.find?_some h
    exact hfound
  obtain ⟨rest, rfl⟩ := List.isPrefixOf_iff_prefix.mp hbegins
  rw [← String.length_toList, List.drop_left]

/-- Whether a token can be a number, or what is wrong with one. -/
def TokenKind.isNumberOrFault : TokenKind → Bool
  | .number _ | .bigint | .fault _ => true
  | _ => false

/-- A number in another base is read as a number or not at all. -/
theorem scanRadix_isNumberOrFault (base : Nat) (text : List Char) :
    (scanRadix base text).kind.isNumberOrFault = true := by
  unfold scanRadix
  dsimp only
  split
  · split <;> rfl
  · split <;> rfl
  · rfl

/-- So is a decimal number. -/
theorem scanDecimal_isNumberOrFault (text : List Char) :
    (scanDecimal text).kind.isNumberOrFault = true := by
  unfold scanDecimal
  dsimp only
  split
  · dsimp only
    split <;> rfl
  · dsimp only
    split <;> rfl

/-- So is any numeral. -/
theorem scanNumeral_isNumberOrFault (text : List Char) :
    (scanNumeral text).kind.isNumberOrFault = true := by
  unfold scanNumeral
  split
  · split
    · exact scanRadix_isNumberOrFault 16 _
    · split
      · exact scanRadix_isNumberOrFault 8 _
      · split
        · exact scanRadix_isNumberOrFault 2 _
        · dsimp only
          split
          · rfl
          · exact scanDecimal_isNumberOrFault _
  · exact scanDecimal_isNumberOrFault _

/-- A number is read as one, or as a fault. -/
theorem scanNumber_isNumberOrFault (text : List Char) :
    (scanNumber text).kind.isNumberOrFault = true := by
  unfold scanNumber
  dsimp only
  split
  · rfl
  · exact scanNumeral_isNumberOrFault text

/-- The name or text of a token is spelled in a text. -/
def TokenKind.IsSpelled (text : List Char) : TokenKind → Prop
  | .word name _ | .privateName name => Spelled text name
  | .string value => Spelled text value
  | .punct _ | .number _ | .bigint | .fault _ | .finish => True

/-- A word is spelled by its name. -/
@[simp] theorem TokenKind.isSpelled_word {keyword : Option Keyword} :
    (word name keyword).IsSpelled text ↔ Spelled text name := Iff.rfl

/-- So is a private name. -/
@[simp] theorem TokenKind.isSpelled_privateName :
    (privateName name).IsSpelled text ↔ Spelled text name := Iff.rfl

/-- A string is spelled by its characters. -/
@[simp] theorem TokenKind.isSpelled_string {value : String} :
    (string value).IsSpelled text ↔ Spelled text value := Iff.rfl

/-- A number has nothing to be spelled. -/
theorem TokenKind.isSpelled_of_isNumberOrFault {kind : TokenKind}
    (h : kind.isNumberOrFault = true) (text : List Char) : kind.IsSpelled text := by
  cases kind with
  | number | bigint | fault => trivial
  | word | privateName | punct | string | finish => cases h

/-- What is spelled in a part of a text is spelled in the text. -/
theorem TokenKind.IsSpelled.mono {text rest : List Char} {kind : TokenKind} (hsub : rest ⊆ text)
    (h : kind.IsSpelled rest) : kind.IsSpelled text := by
  cases kind with
  | word | privateName | string => exact Spelled.mono hsub h
  | number | bigint | fault | punct | finish => trivial

/-- A name at the front of a text is spelled in it. -/
theorem spelled_scanName {skip : Nat} : Spelled text (String.ofList (scanName skip text).name) :=
  spelled_ofList fun hescape _ hc => .inl (mem_of_mem_scanName hescape hc)

/-- A token is spelled in the text that it is read from. -/
theorem isSpelled_scanKind (text : List Char) : (scanKind text).1.IsSpelled text := by
  cases text with
  | nil => trivial
  | cons c rest =>
    have hrest : rest ⊆ c :: rest := List.subset_cons_self c rest
    unfold scanKind
    dsimp only
    split
    · split
      · exact spelled_scanName
      · trivial
    · split
      · exact TokenKind.isSpelled_of_isNumberOrFault (scanNumber_isNumberOrFault _) _
      · split
        · split
          · exact (spelled_scanString ‹_›).mono hrest
          · trivial
          · trivial
        · split
          · split
            · exact spelled_scanName.mono hrest
            · trivial
          · split
            · trivial
            · split <;> trivial

/-- A token that is read as a punctuator is written like one. -/
theorem eq_append_of_scanKind {p : Punct} {width : Nat} (h : scanKind text = (.punct p, width)) :
    text = p.text.toList ++ text.drop width := by
  cases text with
  | nil => cases h
  | cons c rest =>
    unfold scanKind at h
    dsimp only at h
    split at h
    · split at h <;> cases h
    · split at h
      · have hnumber := scanNumber_isNumberOrFault (c :: rest)
        rw [(Prod.mk.inj h).1] at hnumber
        cases hnumber
      · split at h
        · split at h <;> cases h
        · split at h
          · split at h <;> cases h
          · split at h
            · rename_i hquestion
              cases h
              rw [Bool.and_eq_true, Bool.and_eq_true, beq_iff_eq] at hquestion
              obtain ⟨⟨rfl, -⟩, -⟩ := hquestion
              rfl
            · split at h
              · rename_i hpunct
                cases h
                exact eq_append_of_scanPunct hpunct
              · cases h

/-- A token that is read as a word begins a name. -/
theorem begins_name_of_scanKind {c : Char} {keyword : Option Keyword} {width : Nat}
    (h : scanKind (c :: text) = (.word name keyword, width)) : isNameStart c = true ∨ c = '\\' := by
  unfold scanKind at h
  dsimp only at h
  split at h
  · rename_i hname
    rwa [Bool.or_eq_true, beq_iff_eq] at hname
  · split at h
    · have hnumber := scanNumber_isNumberOrFault (c :: text)
      rw [(Prod.mk.inj h).1] at hnumber
      cases hnumber
    · split at h
      · split at h <;> cases h
      · split at h
        · split at h <;> cases h
        · split at h
          · cases h
          · split at h <;> cases h

end MarkupCompiler.Syntax

namespace MarkupCompiler.Grammar

open Syntax Text

/-! ## Cursors -/

/-- A cursor stands in a text: what it holds of the text is what is left at its offsets, which are
in order, and its token is written there if it is a punctuator, and spelled there if it is a name or
text. -/
structure Cursor.On (text : List Char) (cursor : Cursor) : Prop where
  here : IsLeft text cursor.token.span.start cursor.here
  after : IsLeft text cursor.token.span.stop cursor.after
  punct : ∀ p, cursor.token.kind = .punct p → cursor.here = p.text.toList ++ cursor.after
  spelled : cursor.token.kind.IsSpelled text
  order : cursor.lastStop ≤ cursor.token.span.start ∧
    cursor.token.span.start ≤ cursor.token.span.stop

variable {text rest : List Char} {offset : Nat} {cursor : Cursor}

/-- Where a cursor stands has nothing to do with what it has noted. -/
@[simp] theorem Cursor.on_mk {defaults : List Nat} {exports : List (String × Nat)}
    {noted : List Diagnostic} :
    On text ⟨cursor.token, cursor.here, cursor.after, cursor.lastStop, defaults, exports, noted⟩ ↔
      cursor.On text :=
  ⟨fun h => ⟨h.here, h.after, h.punct, h.spelled, h.order⟩,
    fun h => ⟨h.here, h.after, h.punct, h.spelled, h.order⟩⟩

/-- A cursor that is moved to a place of the text stands there. -/
theorem Cursor.On.moveTo (cursor : Cursor) (h : IsLeft text offset rest) :
    (cursor.moveTo offset rest).On text := by
  have hblanks := isLeft_skipBlanks .plain offset false rest h
  have horder := le_skipBlanks .plain offset false rest (Nat.le_refl _) nofun
  unfold Cursor.moveTo readToken
  dsimp only
  generalize skipBlanks .plain offset false rest = blanks at hblanks horder
  obtain ⟨offset', rest', newLine, openComment⟩ := blanks
  cases openComment with
  | some start =>
    exact ⟨isLeft_nil, isLeft_nil, nofun, trivial, horder.2 start rfl⟩
  | none =>
    exact
      { here := hblanks
        after := hblanks.drop _
        punct := fun p hp => eq_append_of_scanKind (Prod.ext hp rfl)
        spelled := (isSpelled_scanKind rest').mono hblanks.subset
        order := ⟨horder.1, Nat.le_add_right _ _⟩ }

/-- A cursor that is moved to a character that is no blank stands on the token that begins there. -/
theorem Cursor.moveTo_of_isSolid {c : Char} (hc : isSolid c = true) {kind : TokenKind} {width : Nat}
    {rest : List Char} (hscan : scanKind (c :: rest) = (kind, width)) (cursor : Cursor)
    (offset : Nat) :
    (cursor.moveTo offset (c :: rest)).here = c :: rest ∧
      (cursor.moveTo offset (c :: rest)).token.kind = kind := by
  unfold Cursor.moveTo
  rw [readToken_of_isSolid hc offset rest hscan]
  exact ⟨rfl, rfl⟩

/-- The next token is in the text as well. -/
theorem Cursor.On.next (h : cursor.On text) : cursor.next.On text := .moveTo cursor h.after

/-- The cursor at the front of a text stands there. -/
theorem Cursor.on_atFront (text : List Char) : (Cursor.atFront text).On text := by
  have hskipped : text = commandLine text ++ text.drop (commandLine text).length := by
    unfold commandLine
    split
    · rename_i rest
      have hline := List.prefix_iff_eq_append.mp
        (List.takeWhile_prefix (l := rest) fun c => !isLineEnd c)
      rw [List.length_cons, List.length_cons, List.drop_succ_cons, List.drop_succ_cons,
        List.cons_append, List.cons_append, hline]
    · rfl
  have hleft : IsLeft text (byteLength (commandLine text)) (text.drop (commandLine text).length) :=
    .inr ⟨commandLine text, hskipped, rfl⟩
  exact Cursor.on_mk.1 (Cursor.On.moveTo (Cursor.atFront text) hleft)

/-- Every punctuator takes a byte for each of its characters. -/
theorem byteLength_punct (p : Punct) : byteLength p.text.toList = p.text.length := by
  cases p <;> rfl

/-- A token that is read anew as a punctuator that stands there. -/
theorem Cursor.On.narrow {p : Punct} (h : cursor.On text)
    (hhere : cursor.here = p.text.toList ++ rest) : (cursor.narrow p).On text := by
  have hdrop : cursor.here.drop p.text.length = rest := by
    rw [hhere, ← String.length_toList, List.drop_left]
  refine ⟨h.here, ?_, ?_, trivial, h.order.1, Nat.le_add_right _ _⟩
  · show IsLeft text (cursor.token.span.start + p.text.length) (cursor.here.drop p.text.length)
    rw [hdrop, ← byteLength_punct]
    exact (hhere ▸ h.here).append _
  · rintro q ⟨⟩
    show cursor.here = p.text.toList ++ cursor.here.drop p.text.length
    rw [hdrop, hhere]

/-! ## How markup opens -/

/-- A tag opens at an offset: there stands an angle bracket, and after it the tag of a fragment is
closed, or a blank, a comment or a name begins. -/
def OpensTag (text : List Char) (offset : Nat) : Prop :=
  ∃ before c rest, text = before ++ '<' :: c :: rest ∧ byteLength before = offset ∧
    (c = '>' ∨ isSolid c = false ∨ isNameStart c = true ∨ c = '\\')

/-- An angle bracket opens a tag if the next token closes it or is a word. -/
theorem Cursor.On.opensTag (h : cursor.On text) (hkind : cursor.token.kind = .punct .lt)
    (hnext : cursor.next.token.kind = .punct .gt ∨
      ∃ name keyword, cursor.next.token.kind = .word name keyword) :
    OpensTag text cursor.token.span.start := by
  have hhere : cursor.here = '<' :: cursor.after := h.punct .lt hkind
  have hleft : IsLeft text cursor.token.span.start ('<' :: cursor.after) := hhere ▸ h.here
  rcases hleft with hnil | ⟨before, htext, hoffset⟩
  · cases hnil
  · have hread : cursor.next.token =
        (readToken cursor.token.span.stop cursor.after).1 := rfl
    cases hafter : cursor.after with
    | nil =>
      -- Nothing is left after the bracket, so the next token is the end of the text.
      rw [hread, hafter] at hnext
      rcases hnext with hnext | ⟨name, keyword, hnext⟩ <;> cases hnext
    | cons c rest =>
      rw [hafter] at htext
      refine ⟨before, c, rest, htext, hoffset, ?_⟩
      cases hsolid : isSolid c with
      | false => exact .inr (.inl rfl)
      | true =>
        obtain ⟨⟨kind, width⟩, hscan⟩ : ∃ scan, scanKind (c :: rest) = scan := ⟨_, rfl⟩
        rw [hread, hafter, readToken_of_isSolid hsolid _ _ hscan] at hnext
        dsimp only at hnext
        rcases hnext with rfl | ⟨name, keyword, rfl⟩
        · exact .inl (List.cons.inj (eq_append_of_scanKind hscan)).1
        · exact .inr (.inr (begins_name_of_scanKind hscan))

end MarkupCompiler.Grammar
