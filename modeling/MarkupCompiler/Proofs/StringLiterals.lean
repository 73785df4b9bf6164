import MarkupCompiler.Json.Reader
import MarkupCompiler.Syntax.Lexer

/-!
# String literals

A text is written between double quotes, character by character. `quoteChar_cases` says in which
three ways a character is written; that the literal is read back as the text, by the reader of JSON
(`readValue_quoteChars`) and by the tokenizer of the language (`scanKind_quoteChars`), is one case
for each of them and an induction over the text. Both hold whatever stands after the literal. The
literal ends at the first quote that no backslash escapes (`endsInEscape_eq_false_iff`).
-/

namespace MarkupCompiler.Text

/-! ## How characters are written -/

/-- The characters that are escaped with a letter or sign of their own. -/
def shortEscapes : List (Char × Char) :=
  [('"', '"'), ('\\', '\\'), ('\n', 'n'), ('\r', 'r'), ('\t', 't'), (Char.ofNat 8, 'b'),
    (Char.ofNat 12, 'f')]

/-- The digits of a character below the space. -/
def controlDigits (c : Char) : List Char :=
  ['0', '0', hexDigit (c.toNat / 16), hexDigit (c.toNat % 16)]

/-- A character is escaped with a sign of its own or with its number, or written as it is. -/
theorem quoteChar_cases (c : Char) :
    (∃ sign, (c, sign) ∈ shortEscapes ∧ quoteChar c = ['\\', sign]) ∨
      c.toNat < 32 ∧ quoteChar c = '\\' :: 'u' :: controlDigits c ∨
      32 ≤ c.toNat ∧ c ≠ '"' ∧ c ≠ '\\' ∧ quoteChar c = [c] := by
  have hcode : ∀ {n : Nat}, (c.toNat == n) = true → c = Char.ofNat n := by
    intro n h
    rw [← beq_iff_eq.1 h, Char.ofNat_toNat]
  fun_cases quoteChar c with
  | case1 h => exact .inl ⟨'"', by simp [shortEscapes, beq_iff_eq.1 h], rfl⟩
  | case2 _ h => exact .inl ⟨'\\', by simp [shortEscapes, beq_iff_eq.1 h], rfl⟩
  | case3 _ _ h => exact .inl ⟨'n', by simp [shortEscapes, beq_iff_eq.1 h], rfl⟩
  | case4 _ _ _ h => exact .inl ⟨'r', by simp [shortEscapes, beq_iff_eq.1 h], rfl⟩
  | case5 _ _ _ _ h => exact .inl ⟨'t', by simp [shortEscapes, beq_iff_eq.1 h], rfl⟩
  | case6 _ _ _ _ _ h => exact .inl ⟨'b', by simp [shortEscapes, hcode h], rfl⟩
  | case7 _ _ _ _ _ _ h => exact .inl ⟨'f', by simp [shortEscapes, hcode h], rfl⟩
  | case8 _ _ _ _ _ _ _ h => exact .inr (.inl ⟨h, rfl⟩)
  | case9 hquote hescape _ _ _ _ _ h =>
    exact .inr (.inr ⟨Nat.not_lt.1 h, by simpa using hquote, by simpa using hescape, rfl⟩)

/-- The number of a character below the space is read from its digits. -/
theorem digitsValue?_controlDigits {c : Char} (hc : c.toNat < 32) :
    digitsValue? 16 0 (controlDigits c) = some c.toNat := by
  have hdigit : ∀ n < 16, digitValue? 16 (hexDigit n) = some n := by decide
  have hzero : digitValue? 16 '0' = some 0 := rfl
  simp only [controlDigits, digitsValue?, hzero, hdigit (c.toNat / 16) (by omega),
    hdigit (c.toNat % 16) (by omega), Option.bind_eq_bind, Option.bind_some, Option.some.injEq]
  omega

/-- The number of a character below the space is no half of a pair. -/
theorem ofCode_of_lt {c : Char} (hc : c.toNat < 32) : CodeUnit.ofCode c.toNat = .char c := by
  have hhigh : CodeUnit.isHigh c.toNat = false := by
    simp [CodeUnit.isHigh]
    omega
  have hlow : CodeUnit.isLow c.toNat = false := by
    simp [CodeUnit.isLow]
    omega
  rw [CodeUnit.ofCode, hhigh, hlow, if_neg (by decide), Char.ofNat_toNat]

/-- Characters by themselves are joined to a text. -/
theorem join?_map_char (text : List Char) : CodeUnit.join? (text.map .char) = some text := by
  induction text with
  | nil => rfl
  | cons c text ih => rw [List.map_cons, CodeUnit.join?, ih, Option.map_some]

/-- Units of characters give the characters. -/
theorem joinBy_map_char (lone : Nat → List Char) (text : List Char) :
    CodeUnit.joinBy lone (text.map .char) = text := by
  induction text with
  | nil => rfl
  | cons c text ih => rw [List.map_cons, CodeUnit.joinBy, ih]

end MarkupCompiler.Text

/-! ## As JSON -/

namespace MarkupCompiler.Json

open Text

/-- The signs of escapes are those of JSON. -/
theorem escapeOf?_of_mem_shortEscapes :
    ∀ entry ∈ shortEscapes, escapeOf? entry.2 = some entry.1 ∧ entry.2 ≠ 'u' := by
  decide

/-- A character that was written is read back. -/
theorem readUnits_quoteChar (c : Char) (rest : List Char) :
    readUnits (quoteChar c ++ rest) =
      (readUnits rest).map fun result => (.char c :: result.1, result.2) := by
  rcases quoteChar_cases c with ⟨sign, hsign, hquote⟩ | ⟨hc, hquote⟩ | ⟨hc, hmark, hescape, hquote⟩
  · obtain ⟨hread, hsign⟩ := escapeOf?_of_mem_shortEscapes _ hsign
    rw [hquote, List.cons_append, List.singleton_append, readUnits, hread]
    · cases readUnits rest <;> rfl
    · exact fun a b c d tail heq => absurd heq hsign
  · have hdigits := digitsValue?_controlDigits hc
    rw [controlDigits] at hdigits
    rw [hquote, controlDigits]
    show readUnits ('\\' :: 'u' :: _ :: _ :: _ :: _ :: rest) = _
    rw [readUnits, hdigits, Option.bind_eq_bind, Option.bind_some, ofCode_of_lt hc]
    cases readUnits rest <;> rfl
  · rw [hquote, List.singleton_append, readUnits, if_neg (not_or.2 ⟨Nat.not_lt.2 hc, hescape⟩)]
    · cases readUnits rest <;> rfl
    · exact hmark
    · exact fun _ _ _ _ _ h _ => hescape h
    · exact fun _ _ h _ => hescape h

/-- A literal is read as the text that was written. -/
theorem readUnits_flatMap_quoteChar (text rest : List Char) :
    readUnits (text.flatMap quoteChar ++ '"' :: rest) = some (text.map .char, rest) := by
  induction text with
  | nil => rfl
  | cons c text ih =>
    rw [List.flatMap_cons, List.append_assoc, readUnits_quoteChar, ih]
    rfl

/-- A literal is read as the text that was written, whatever stands after it. -/
theorem readValue_quoteChars (depth : Nat) (text rest : List Char) :
    readValue (depth + 1) (quoteChars text ++ rest) =
      some (.string (String.ofList text), rest) := by
  have hread : readString (text.flatMap quoteChar ++ '"' :: rest) =
      some (.string (String.ofList text), rest) := by
    rw [readString, readUnits_flatMap_quoteChar, Option.bind_eq_bind, Option.bind_some]
    dsimp only
    rw [join?_map_char]
    rfl
  rw [quoteChars, List.cons_append, List.append_assoc]
  exact hread

end MarkupCompiler.Json

/-! ## As a token of code -/

namespace MarkupCompiler.Syntax

open Text

/-- Some characters more in a string literal, and what they stand for. -/
def StringScan.grow (units : List CodeUnit) (count : Nat) : StringScan → StringScan
  | closed rest written => closed (units ++ rest) (written + count)
  | scan => scan

/-- What belongs to an escape is passed over. -/
theorem scanString_append (quote : Char) (front rest : List Char) :
    scanString quote front.length (front ++ rest) =
      (scanString quote 0 rest).grow [] front.length := by
  induction front with
  | nil =>
    rw [List.nil_append, List.length_nil]
    cases scanString quote 0 rest <;> rfl
  | cons c front ih =>
    rw [List.length_cons, List.cons_append, scanString, ih]
    cases scanString quote 0 rest <;> rfl

/-- The signs of escapes are those of the language. -/
theorem scanEscape_of_mem_shortEscapes {c sign : Char} (h : (c, sign) ∈ shortEscapes)
    (rest : List Char) : scanEscape (sign :: rest) = some { units := [.char c], width := 1 } := by
  simp only [shortEscapes, List.mem_cons, Prod.mk.injEq, List.not_mem_nil, or_false] at h
  rcases h with ⟨rfl, rfl⟩ | ⟨rfl, rfl⟩ | ⟨rfl, rfl⟩ | ⟨rfl, rfl⟩ | ⟨rfl, rfl⟩ | ⟨rfl, rfl⟩ |
    ⟨rfl, rfl⟩ <;> rfl

/-- A number of four digits after `u` is that of a character. -/
theorem scanEscape_controlDigits {c : Char} (hc : c.toNat < 32) (rest : List Char) :
    scanEscape ('u' :: (controlDigits c ++ rest)) = some { units := [.char c], width := 5 } := by
  have hdigits := digitsValue?_controlDigits hc
  rw [controlDigits] at hdigits
  have hcode : unicodeEscape? (controlDigits c ++ rest) = some (c.toNat, 4) := by
    rw [controlDigits]
    show (digitsValue? 16 0 _).map (·, 4) = _
    rw [hdigits]
    rfl
  show (unicodeEscape? (controlDigits c ++ rest)).map _ = _
  rw [hcode, Option.map_some]
  dsimp only
  rw [ofCode_of_lt hc]

/-- An escape is read as what it stands for. -/
theorem scanString_escape {front rest : List Char} {units : List CodeUnit}
    (h : scanEscape (front ++ rest) = some { units, width := front.length }) :
    scanString '"' 0 ('\\' :: (front ++ rest)) =
      (scanString '"' 0 rest).grow units (front.length + 1) := by
  rw [scanString, if_neg (by decide), if_neg (by decide), if_pos (by decide), h]
  dsimp only
  rw [scanString_append]
  cases scanString '"' 0 rest <;> rfl

/-- A character that was written is read back. -/
theorem scanString_quoteChar (c : Char) (rest : List Char) :
    scanString '"' 0 (quoteChar c ++ rest) =
      (scanString '"' 0 rest).grow [.char c] (quoteChar c).length := by
  rcases quoteChar_cases c with ⟨sign, hsign, hquote⟩ | ⟨hc, hquote⟩ | ⟨hc, hmark, hescape, hquote⟩
  · have hfront : scanEscape ([sign] ++ rest) = some { units := [.char c], width := 1 } :=
      scanEscape_of_mem_shortEscapes hsign rest
    rw [hquote]
    exact scanString_escape hfront
  · have hfront : scanEscape (('u' :: controlDigits c) ++ rest) =
        some { units := [.char c], width := 5 } := scanEscape_controlDigits hc rest
    rw [hquote]
    exact scanString_escape hfront
  · have hline : ¬ (c == '\n' || c == '\r') = true := by
      rw [Bool.or_eq_true, beq_iff_eq, beq_iff_eq]
      rintro (rfl | rfl) <;> exact absurd hc (by decide)
    rw [hquote, List.singleton_append, scanString, if_neg (by simpa using hmark), if_neg hline,
      if_neg (by simpa using hescape)]
    cases scanString '"' 0 rest <;> rfl

/-- A literal is read as the text that was written. -/
theorem scanString_flatMap_quoteChar (text rest : List Char) :
    scanString '"' 0 (text.flatMap quoteChar ++ '"' :: rest) =
      .closed (text.map .char) ((text.flatMap quoteChar).length + 1) := by
  induction text with
  | nil => rfl
  | cons c text ih =>
    rw [List.flatMap_cons, List.append_assoc, scanString_quoteChar, ih, List.length_append]
    show StringScan.closed _ _ = _
    rw [Nat.add_right_comm, Nat.add_comm (text.flatMap quoteChar).length]
    rfl

/-- A literal is one token, whatever stands after it. -/
theorem scanKind_quoteChars (text rest : List Char) :
    scanKind (quoteChars text ++ rest) =
      (.string (String.ofList text), (quoteChars text).length) := by
  have hname : (isNameStart '"' || '"' == '\\') = false := by decide
  have hdigit : ('"'.isDigit || ('"' == '.' && (text.flatMap quoteChar ++ '"' :: rest).head?.any
      Char.isDigit)) = false := rfl
  rw [quoteChars, List.cons_append, List.append_assoc, List.singleton_append, scanKind]
  dsimp only
  rw [hname, if_neg Bool.false_ne_true, hdigit, if_neg Bool.false_ne_true, if_pos (by decide),
    scanString_flatMap_quoteChar]
  dsimp only
  rw [unitsText, joinBy_map_char, List.length_cons, List.length_append, List.length_singleton]

end MarkupCompiler.Syntax

/-! ## Where a literal ends -/

namespace MarkupCompiler.Text

/-- Whether a text ends in a backslash that escapes what stands after it: in an odd number of
backslashes. -/
def endsInEscape (text : List Char) : Bool :=
  (text.reverse.takeWhile (· == '\\')).length % 2 == 1

/-- A backslash opens an escape unless it is escaped itself. -/
theorem endsInEscape_concat (text : List Char) (c : Char) :
    endsInEscape (text ++ [c]) = (c == '\\' && !endsInEscape text) := by
  unfold endsInEscape
  rw [List.reverse_append, List.reverse_singleton, List.singleton_append, List.takeWhile_cons]
  split
  · rename_i hc
    rw [List.length_cons, hc, Bool.true_and, Bool.eq_iff_iff]
    simp only [beq_iff_eq, Bool.not_eq_true', beq_eq_false_iff_ne]
    omega
  · rename_i hc
    rw [Bool.eq_false_iff.2 hc]
    rfl

/-- No digit is a backslash or a quote. -/
theorem hexDigit_ne : ∀ n < 16, hexDigit n ≠ '\\' ∧ hexDigit n ≠ '"' := by
  decide

/-- A written character leaves no escape open. -/
theorem endsInEscape_append_quoteChar {text : List Char} (h : endsInEscape text = false)
    (c : Char) : endsInEscape (text ++ quoteChar c) = false := by
  rcases quoteChar_cases c with ⟨sign, -, hquote⟩ | ⟨-, hquote⟩ | ⟨-, -, hescape, hquote⟩
  · rw [hquote, List.append_cons, endsInEscape_concat, endsInEscape_concat, h]
    simp
  · have hsplit : '\\' :: 'u' :: controlDigits c =
        ['\\', 'u', '0', '0', hexDigit (c.toNat / 16)] ++ [hexDigit (c.toNat % 16)] := rfl
    rw [hquote, hsplit, ← List.append_assoc, endsInEscape_concat]
    simp [(hexDigit_ne (c.toNat % 16) (by omega)).1]
  · rw [hquote, endsInEscape_concat]
    simp [hescape]

/-- In a written character a quote stands only behind a backslash. -/
theorem eq_of_quoteChar_eq_append {c : Char} {before after : List Char}
    (h : quoteChar c = before ++ '"' :: after) : before = ['\\'] := by
  rcases quoteChar_cases c with ⟨sign, -, hquote⟩ | ⟨hc, hquote⟩ | ⟨-, hmark, -, hquote⟩
  · rw [hquote] at h
    cases before with
    | nil => simp at h
    | cons d before =>
      obtain ⟨rfl, hrest⟩ := List.cons.inj h
      cases before with
      | nil => rfl
      | cons e before => simp at hrest
  · have hmem : '"' ∈ quoteChar c := by simp [h]
    have hdigit := hexDigit_ne (c.toNat / 16) (by omega)
    have hdigit' := hexDigit_ne (c.toNat % 16) (by omega)
    rw [hquote, controlDigits] at hmem
    simp [hdigit.2.symm, hdigit'.2.symm] at hmem
  · rw [hquote] at h
    cases before with
    | nil => exact absurd (List.cons.inj h).1 hmark
    | cons d before => simp at h

/-- Up to the end of a literal every quote is escaped, and the quote at its end is not. -/
theorem endsInEscape_eq_false_iff {front text before after : List Char}
    (hfront : endsInEscape front = false)
    (h : text.flatMap quoteChar ++ ['"'] = before ++ '"' :: after) :
    endsInEscape (front ++ before) = false ↔ after = [] := by
  induction text generalizing front before with
  | nil =>
    cases before with
    | nil =>
      cases h
      rw [List.append_nil]
      exact ⟨fun _ => rfl, fun _ => hfront⟩
    | cons c before => simp at h
  | cons c text ih =>
    rw [List.flatMap_cons, List.append_assoc] at h
    rcases List.append_eq_append_iff.1 h with ⟨middle, rfl, hrest⟩ | ⟨middle, hquote, hafter⟩
    · rw [← List.append_assoc]
      exact ih (endsInEscape_append_quoteChar hfront c) hrest
    · cases middle with
      | nil =>
        rw [List.append_nil] at hquote
        have hend : text.flatMap quoteChar ++ ['"'] = [] ++ '"' :: after := hafter.symm
        have hrest := ih (endsInEscape_append_quoteChar hfront c) hend
        rwa [List.append_nil, hquote] at hrest
      | cons d middle =>
        cases hafter
        rw [eq_of_quoteChar_eq_append hquote, endsInEscape_concat, hfront]
        simp

/-- No character below the space is written as it is. -/
theorem le_toNat_of_mem_quoteChars {text : List Char} {c : Char} (h : c ∈ quoteChars text) :
    32 ≤ c.toNat := by
  have hshort : ∀ entry ∈ shortEscapes, 32 ≤ entry.2.toNat := by decide
  have hdigit : ∀ n < 16, 32 ≤ (hexDigit n).toNat := by decide
  rw [quoteChars, List.mem_cons, List.mem_append, List.mem_flatMap, List.mem_singleton] at h
  rcases h with rfl | ⟨d, -, h⟩ | rfl
  · decide
  · rcases quoteChar_cases d with ⟨sign, hsign, hquote⟩ | ⟨hd, hquote⟩ | ⟨hd, -, -, hquote⟩
    · rw [hquote] at h
      simp only [List.mem_cons, List.not_mem_nil, or_false] at h
      rcases h with rfl | rfl
      · decide
      · exact hshort _ hsign
    · rw [hquote, controlDigits] at h
      simp only [List.mem_cons, List.not_mem_nil, or_false] at h
      rcases h with rfl | rfl | rfl | rfl | rfl | rfl
      any_goals decide
      · exact hdigit _ (by omega)
      · exact hdigit _ (by omega)
    · rw [hquote, List.mem_singleton] at h
      rw [h]
      exact hd
  · decide

end MarkupCompiler.Text
