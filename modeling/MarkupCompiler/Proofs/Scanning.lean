import MarkupCompiler.Grammar.Parser

/-!
# Tokens in a longer text

A token is read from the front of a text, and what comes after it decides where it ends. These are
the cases in which the text after a token leaves it as it is: a name before a character that no name
goes on with (`scanName_append`), a number before a bracket, a comma, a blank, a question mark or a
dot, unless the dot is a decimal point (`scanKind_append`), and a string literal before any text
(`scanKind_append_of_quote`).
-/

namespace MarkupCompiler.Syntax

open Text

/-! ## Names -/

/-- A text cannot go on with a name: it is empty, or begins with a character that is none of names
and begins no escape. -/
def EndsName (text : List Char) : Prop := ∀ c ∈ text.head?, isNamePart c = false ∧ c ≠ '\\'

/-- A name ends with the text. -/
theorem endsName_nil : EndsName [] := by
  intro c hc
  cases hc

variable {c : Char} {text : List Char}

/-- A name ends before a character of no name. -/
theorem endsName_cons (hc : isNamePart c = false) (hescape : c ≠ '\\') (text : List Char) :
    EndsName (c :: text) := by
  intro d hd
  cases hd
  exact ⟨hc, hescape⟩

/-- A name is read up to where it cannot go on. -/
theorem scanName_append {word text : List Char} (hword : ∀ c ∈ word, isNamePart c = true)
    (htext : EndsName text) : scanName 0 (word ++ text) = ⟨word, word.length, false, true⟩ := by
  induction word with
  | nil =>
    cases text with
    | nil => rfl
    | cons c text =>
      obtain ⟨hc, hescape⟩ := htext c rfl
      unfold scanName
      simp [hc, hescape]
  | cons d word ih =>
    have hd : isNamePart d = true := hword d (.head _)
    have hrest := ih fun c hc => hword c (List.mem_cons_of_mem d hc)
    unfold scanName
    simp [hd, hrest]

/-- What may begin a name may also continue it. -/
theorem isNamePart_of_isNameStart (h : isNameStart c = true) : isNamePart c = true := by
  unfold isNameStart at h
  rw [Bool.or_eq_true, Bool.or_eq_true, beq_iff_eq, beq_iff_eq] at h
  rcases h with (hletter | rfl) | rfl
  · have hmark : isLetterOrMark c = true := by
      unfold isLetter at hletter
      unfold isLetterOrMark
      split at hletter
      · rename_i hascii
        rw [if_pos hascii, Char.isAlphanum, hletter]
        rfl
      · rename_i hascii
        rw [if_neg hascii, hletter]
        rfl
    rw [isNamePart, hmark]
    rfl
  · decide
  · decide

/-- The characters of a whole name may all continue one. -/
theorem isNamePart_of_isName {name : List Char} (h : isName name = true) :
    ∀ c ∈ name, isNamePart c = true := by
  cases name with
  | nil => cases h
  | cons first rest =>
    rw [isName, Bool.and_eq_true, List.all_eq_true] at h
    intro c hc
    rcases List.mem_cons.1 hc with rfl | hc
    · exact isNamePart_of_isNameStart h.1
    · exact h.2 c hc

/-- A whole name is read as a word. -/
theorem scanKind_name {name text : List Char} (hname : isName name = true)
    (htext : EndsName text) :
    scanKind (name ++ text) =
      (.word (String.ofList name) (Keyword.ofName? name), name.length) := by
  have hscan := scanName_append (isNamePart_of_isName hname) htext
  cases name with
  | nil => cases hname
  | cons first rest =>
    rw [isName, Bool.and_eq_true] at hname
    rw [List.cons_append] at hscan ⊢
    unfold scanKind
    simp [hname.1, hscan]

/-! ## Numbers -/

/-- Digits end before a character that is no digit and no separator. -/
theorem spanDigits_append {isDigit : Char → Bool} (hc : isDigit c = false) (hseparator : c ≠ '_')
    (digits rest : List Char) :
    spanDigits isDigit (digits ++ c :: rest) =
      ((spanDigits isDigit digits).1, (spanDigits isDigit digits).2 ++ c :: rest) := by
  unfold spanDigits
  induction digits with
  | nil => simp [hc, hseparator]
  | cons d digits ih =>
    rw [Prod.mk.injEq] at ih ⊢
    rw [List.cons_append, List.takeWhile_cons, List.takeWhile_cons, List.dropWhile_cons,
      List.dropWhile_cons]
    split
    · exact ⟨congrArg (d :: ·) ih.1, ih.2⟩
    · exact ⟨rfl, rfl⟩

/-- The characters before which a number literal ends. A dot is one of them only if it is not the
decimal point of the literal. -/
def numberEnds : List Char := ['.', '[', ']', '(', ')', ',', ' ', '?']

/-- What is read of a number when more comes after the text. -/
def NumberScan.before (scan : NumberScan) (rest : List Char) : NumberScan :=
  { scan with rest := scan.rest ++ rest }

section

variable {c : Char} (hc : c ∈ numberEnds)
include hc

/-- What ends a number is no other character. -/
theorem ne_of_mem_numberEnds {d : Char} (hd : numberEnds.contains d = false) : c ≠ d := by
  rintro rfl
  rw [List.contains_iff_mem.2 hc] at hd
  cases hd

/-- What ends a number is in no name. -/
theorem isNamePart_of_mem_numberEnds : isNamePart c = false := by
  have hall : numberEnds.all (fun c => !isNamePart c) = true := by decide
  simpa using List.all_eq_true.mp hall c hc

/-- What ends a number is no digit. -/
theorem isDigit_of_mem_numberEnds : c.isDigit = false := by
  have hall : numberEnds.all (fun c => !c.isDigit) = true := by decide
  simpa using List.all_eq_true.mp hall c hc

/-- It is no digit in any base. -/
theorem digitValue?_of_mem_numberEnds (base : Nat) : (digitValue? base c).isSome = false := by
  simp only [numberEnds, List.mem_cons, List.not_mem_nil, or_false] at hc
  rcases hc with rfl | rfl | rfl | rfl | rfl | rfl | rfl | rfl <;> rfl

/-- Decimal digits end before a character that ends a number. -/
theorem spanDigits_append_end (digits rest : List Char) :
    spanDigits Char.isDigit (digits ++ c :: rest) =
      ((spanDigits Char.isDigit digits).1, (spanDigits Char.isDigit digits).2 ++ c :: rest) :=
  spanDigits_append (isDigit_of_mem_numberEnds hc) (ne_of_mem_numberEnds hc rfl) digits rest

/-- A number in a base other than ten ends before a character that ends a number. -/
theorem scanRadix_append (base : Nat) (text rest : List Char) :
    scanRadix base (text ++ c :: rest) = (scanRadix base text).before (c :: rest) := by
  unfold scanRadix
  rw [spanDigits_append (digitValue?_of_mem_numberEnds hc base) (ne_of_mem_numberEnds hc rfl)]
  rcases spanDigits (fun c => (digitValue? base c).isSome) text with ⟨digits, tail⟩
  dsimp only
  generalize digitsValue? base 0 (digits.filter (· != '_')) = value
  have hbig : c ≠ 'n' := ne_of_mem_numberEnds hc rfl
  cases tail with
  | nil => cases value <;> simp [NumberScan.before, hbig]
  | cons d tail =>
    by_cases hbig : d = 'n'
    · subst hbig
      cases value <;> rfl
    · cases value <;> simp [NumberScan.before, hbig]

/-- An exponent ends before a character that ends a number. -/
theorem scanExponent_append (text rest : List Char) :
    scanExponent (text ++ c :: rest) =
      ((scanExponent text).1, (scanExponent text).2 ++ c :: rest) := by
  cases text with
  | nil =>
    have hlower : c ≠ 'e' := ne_of_mem_numberEnds hc rfl
    have hupper : c ≠ 'E' := ne_of_mem_numberEnds hc rfl
    simp [scanExponent, hlower, hupper]
  | cons d text =>
    unfold scanExponent
    dsimp only [List.cons_append]
    by_cases hexponent : (d == 'e' || d == 'E') = true
    · simp only [hexponent, if_true]
      cases text with
      | nil =>
        have hplus : c ≠ '+' := ne_of_mem_numberEnds hc rfl
        have hminus : c ≠ '-' := ne_of_mem_numberEnds hc rfl
        have hdigits : spanDigits Char.isDigit (c :: rest) = ([], c :: rest) :=
          spanDigits_append_end hc [] rest
        simp [hplus, hminus, hdigits]
      | cons sign text =>
        dsimp only [List.cons_append]
        by_cases hsign : (sign == '+' || sign == '-') = true
        · simp only [hsign, if_true, spanDigits_append_end hc]
        · simp only [if_neg hsign]
          rw [← List.cons_append, spanDigits_append_end hc]
    · simp only [if_neg hexponent]
      rfl

/-- A fraction ends before a character that ends a number. -/
theorem scanFraction_append {text : List Char} (h : text = [] → c ≠ '.') (rest : List Char) :
    scanFraction (text ++ c :: rest) =
      ((scanFraction text).1, (scanFraction text).2 ++ c :: rest) := by
  cases text with
  | nil => simp [scanFraction, h rfl]
  | cons d text =>
    rw [List.cons_append]
    by_cases hpoint : d = '.'
    · subst hpoint
      simp only [scanFraction, spanDigits_append_end hc]
    · simp [scanFraction, hpoint]

/-- A decimal number ends before a character that ends a number, unless that is its decimal
point. -/
theorem scanDecimal_append {text : List Char}
    (h : (spanDigits Char.isDigit text).2 = [] → c ≠ '.') (rest : List Char) :
    scanDecimal (text ++ c :: rest) = (scanDecimal text).before (c :: rest) := by
  unfold scanDecimal
  rw [spanDigits_append_end hc]
  rcases hspan : spanDigits Char.isDigit text with ⟨whole, tail⟩
  rw [hspan] at h
  have hfraction := scanFraction_append hc h rest
  have hnotBig : c ≠ 'n' := ne_of_mem_numberEnds hc rfl
  by_cases hbig : ∃ more, tail = 'n' :: more
  · obtain ⟨more, rfl⟩ := hbig
    rfl
  · cases tail with
    | nil =>
      rw [List.nil_append] at hfraction
      simp [hnotBig, hfraction, scanExponent_append hc, NumberScan.before]
    | cons d tail =>
      have hd : d ≠ 'n' := fun hd => hbig ⟨tail, congrArg (· :: tail) hd⟩
      rw [List.cons_append] at hfraction
      simp [hd, hfraction, scanExponent_append hc, NumberScan.before]

end

/-! ## Where numbers end -/

/-- A number literal of the old octal kind: digits up to seven after a zero. -/
def isOldOctal : List Char → Bool
  | '0' :: c :: rest =>
    let digits := (c :: rest).takeWhile Char.isDigit
    !digits.isEmpty && digits.all fun d => '0' ≤ d ∧ d ≤ '7'
  | _ => false

/-- Whether a dot after a number literal is its decimal point: the literal is made of decimal digits
and separators alone. -/
def takesDot (text : List Char) : Bool :=
  text.head?.any Char.isDigit && text.all (fun c => c.isDigit || c == '_') && !isOldOctal text

/-- Digits alone are read to their end. -/
theorem spanDigits_eq_self_iff {isDigit : Char → Bool} :
    (spanDigits isDigit text).2 = [] ↔ text.all (fun c => isDigit c || c == '_') = true := by
  unfold spanDigits
  induction text with
  | nil => simp
  | cons c text ih =>
    rw [List.dropWhile_cons, List.all_cons]
    split
    · rename_i hc
      rw [hc]
      exact ih
    · rename_i hc
      simp [hc]

/-- Decimal digits end before a character that ends a number, whatever they mean. -/
theorem takeWhile_isDigit_append (hc : c ∈ numberEnds) (text rest : List Char) :
    (text ++ c :: rest).takeWhile Char.isDigit = text.takeWhile Char.isDigit := by
  induction text with
  | nil => simp [isDigit_of_mem_numberEnds hc]
  | cons d text ih =>
    rw [List.cons_append, List.takeWhile_cons, List.takeWhile_cons, ih]

/-- A number literal that does not begin with a zero is decimal. -/
theorem scanNumeral_of_ne_zero (hc : c ≠ '0') (text : List Char) :
    scanNumeral (c :: text) = scanDecimal (c :: text) := by
  unfold scanNumeral
  split
  · rename_i heq
    cases heq
    exact absurd rfl hc
  · rfl

/-- After a zero, a letter tells the base of the literal, and digits up to seven make it octal. -/
theorem scanNumeral_zero (c : Char) (rest : List Char) :
    scanNumeral ('0' :: c :: rest) =
      if c == 'x' || c == 'X' then scanRadix 16 rest
      else if c == 'o' || c == 'O' then scanRadix 8 rest
      else if c == 'b' || c == 'B' then scanRadix 2 rest
      else if isOldOctal ('0' :: c :: rest) then
        ⟨.number (Binary64.ofQuotient false
            ((digitsValue? 8 0 ((c :: rest).takeWhile Char.isDigit)).getD 0) 1),
          ((c :: rest).takeWhile Char.isDigit).length + 1,
          (c :: rest).drop ((c :: rest).takeWhile Char.isDigit).length⟩
      else scanDecimal ('0' :: c :: rest) := rfl

/-- A literal stays of the old octal kind, or of another, before a character that ends a number. -/
theorem isOldOctal_append (hc : c ∈ numberEnds) (d : Char) (text rest : List Char) :
    isOldOctal ('0' :: d :: (text ++ c :: rest)) = isOldOctal ('0' :: d :: text) := by
  show (!((d :: text ++ c :: rest).takeWhile Char.isDigit).isEmpty &&
      ((d :: text ++ c :: rest).takeWhile Char.isDigit).all fun d => '0' ≤ d ∧ d ≤ '7') = _
  rw [takeWhile_isDigit_append hc]
  rfl

/-- A zero alone ends before a character that ends a number, unless that is its decimal point. -/
theorem scanNumeral_zero_append (hc : c ∈ numberEnds) (hdot : c ≠ '.') (rest : List Char) :
    scanNumeral ('0' :: c :: rest) = (scanNumeral ['0']).before (c :: rest) := by
  have hdecimal : scanDecimal (['0'] ++ c :: rest) = (scanDecimal ['0']).before (c :: rest) :=
    scanDecimal_append hc (fun _ => hdot) rest
  have hoctal : isOldOctal ('0' :: c :: rest) = false := by
    simp [isOldOctal, isDigit_of_mem_numberEnds hc]
  have hother {d : Char} (hd : numberEnds.contains d = false) : (c == d) = false :=
    beq_eq_false_iff_ne.2 (ne_of_mem_numberEnds hc hd)
  rw [scanNumeral_zero, hother (d := 'x') rfl, hother (d := 'X') rfl, hother (d := 'o') rfl,
    hother (d := 'O') rfl, hother (d := 'b') rfl, hother (d := 'B') rfl, hoctal]
  exact hdecimal

/-- A number literal ends before a character that ends a number, unless that is its decimal
point. -/
theorem scanNumeral_append (hc : c ∈ numberEnds) {d : Char} (hd : d.isDigit = true ∨ d = '.')
    (h : c = '.' → takesDot (d :: text) = false) (rest : List Char) :
    scanNumeral (d :: (text ++ c :: rest)) = (scanNumeral (d :: text)).before (c :: rest) := by
  -- A decimal is what is left over by all other forms, so it is settled first.
  have hdecimal (hoctal : isOldOctal (d :: text) = false) :
      scanDecimal (d :: (text ++ c :: rest)) = (scanDecimal (d :: text)).before (c :: rest) := by
    rw [← List.cons_append]
    apply scanDecimal_append hc
    rw [spanDigits_eq_self_iff]
    rintro hall rfl
    have htakes := h rfl
    rcases hd with hd | rfl
    · simp only [takesDot, hall, hoctal, List.head?_cons, Option.any_some, hd] at htakes
      cases htakes
    · rw [List.all_cons] at hall
      cases hall
  by_cases hzero : d = '0'
  · subst hzero
    cases text with
    | nil =>
      refine scanNumeral_zero_append hc ?_ rest
      rintro rfl
      cases h rfl
    | cons d text =>
      rw [List.cons_append, scanNumeral_zero, scanNumeral_zero, isOldOctal_append hc,
        scanRadix_append hc, scanRadix_append hc, scanRadix_append hc]
      split
      · rfl
      · split
        · rfl
        · split
          · rfl
          · split
            · have hdigits := takeWhile_isDigit_append hc (d :: text) rest
              rw [List.cons_append] at hdigits
              rw [hdigits, ← List.cons_append, List.drop_append_of_le_length]
              · rfl
              · exact (List.takeWhile_prefix _).length_le
            · rename_i hoctal
              exact hdecimal (Bool.eq_false_iff.2 hoctal)
  · have hoctal : isOldOctal (d :: text) = false := by
      unfold isOldOctal
      split
      · rename_i heq
        cases heq
        exact absurd rfl hzero
      · rfl
    rw [scanNumeral_of_ne_zero hzero, scanNumeral_of_ne_zero hzero]
    exact hdecimal hoctal

/-! ## Numbers as tokens -/

/-- Whether a token is a number. -/
def TokenKind.isNumeric : TokenKind → Bool
  | .number _ | .bigint => true
  | _ => false

/-- The codes of decimal digits. -/
theorem isDigit_bounds (h : c.isDigit = true) : 48 ≤ c.toNat ∧ c.toNat ≤ 57 := by
  simpa [Char.isDigit, UInt32.le_iff_toNat_le] using h

/-- A decimal digit begins no name. -/
theorem isNameStart_of_isDigit (h : c.isDigit = true) : isNameStart c = false := by
  obtain ⟨hlow, hhigh⟩ := isDigit_bounds h
  have halpha : c.isAlpha = false := by
    show (decide (c.val ≥ 'A'.val ∧ c.val ≤ 'Z'.val) ||
      (decide (c.val ≥ 'a'.val) && decide (c.val ≤ 'z'.val))) = false
    simp only [ge_iff_le, UInt32.le_iff_toNat_le]
    simp
    omega
  have hletter : isLetter c = false := by
    rw [isLetter, if_pos (by omega), halpha]
  have hsign : ∀ d : Char, 57 < d.toNat ∨ d.toNat < 48 → (c == d) = false := by
    intro d hd
    rw [beq_eq_false_iff_ne]
    rintro rfl
    omega
  rw [isNameStart, hletter, hsign '$' (by decide), hsign '_' (by decide)]
  rfl

/-- A number begins with a digit, or with a dot and a digit. -/
def startsNumber : List Char → Bool
  | c :: rest => c.isDigit || (c == '.' && rest.head?.any Char.isDigit)
  | [] => false

/-- A number at the front of a text is read as a token. -/
theorem scanKind_of_startsNumber (h : startsNumber text = true) :
    scanKind text = ((scanNumber text).kind, (scanNumber text).written) := by
  cases text with
  | nil => cases h
  | cons c text =>
    have hname : (isNameStart c || c == '\\') = false := by
      rw [startsNumber, Bool.or_eq_true, Bool.and_eq_true, beq_iff_eq] at h
      rcases h with hdigit | ⟨rfl, -⟩
      · rw [isNameStart_of_isDigit hdigit, Bool.false_or, beq_eq_false_iff_ne]
        rintro rfl
        cases hdigit
      · decide
    rw [startsNumber] at h
    simp only [scanKind, hname, h]
    rfl

/-- A token that is a number is read as one. -/
theorem startsNumber_of_isNumeric (h : (scanKind text).1.isNumeric = true) :
    startsNumber text = true := by
  cases text with
  | nil => cases h
  | cons c text =>
    rw [startsNumber]
    by_cases hc : (c.isDigit || (c == '.' && text.head?.any Char.isDigit)) = true
    · exact hc
    · -- No other token is a number.
      simp only [scanKind, if_neg hc] at h
      split at h
      · split at h <;> cases h
      · split at h
        · split at h <;> cases h
        · split at h
          · split at h <;> cases h
          · split at h
            · cases h
            · split at h <;> cases h

/-- A number literal that is read to its end is read alike before a character that ends a number,
unless that is its decimal point. -/
theorem scanKind_append {kind : TokenKind} (hkind : kind.isNumeric = true)
    (h : scanKind text = (kind, text.length)) (hc : c ∈ numberEnds)
    (hdot : c = '.' → takesDot text = false) (rest : List Char) :
    scanKind (text ++ c :: rest) = (kind, text.length) := by
  have hstarts : startsNumber text = true := startsNumber_of_isNumeric (h ▸ hkind)
  rw [scanKind_of_startsNumber hstarts, Prod.mk.injEq] at h
  -- The literal is sound, so that nothing of the text after it clashes with it.
  have hscan : ((scanNumeral text).rest.head?.any fun c =>
      isNameStart c || c.isDigit || c == '\\') = false ∧
      (scanNumeral text).kind = kind ∧ (scanNumeral text).written = text.length := by
    unfold scanNumber at h
    dsimp only at h
    split at h
    · obtain ⟨rfl, -⟩ := h
      cases hkind
    · rename_i hclash
      exact ⟨Bool.eq_false_iff.2 hclash, h⟩
  cases text with
  | nil => cases hstarts
  | cons d text =>
    have hd : d.isDigit = true ∨ d = '.' := by
      rw [startsNumber, Bool.or_eq_true, Bool.and_eq_true, beq_iff_eq] at hstarts
      exact hstarts.imp_right And.left
    have hlong : startsNumber (d :: (text ++ c :: rest)) = true := by
      cases text with
      | nil =>
        have hdigit : d.isDigit = true := by simpa [startsNumber] using hstarts
        rw [List.nil_append, startsNumber, hdigit, Bool.true_or]
      | cons d text => exact hstarts
    have happend := scanNumeral_append hc hd hdot rest
    rw [List.cons_append, scanKind_of_startsNumber hlong, scanNumber, happend]
    have hclash : (((scanNumeral (d :: text)).before (c :: rest)).rest.head?.any fun c =>
        isNameStart c || c.isDigit || c == '\\') = false := by
      have hstart : isNameStart c = false := by
        cases hname : isNameStart c with
        | false => rfl
        | true =>
          have hpart := isNamePart_of_mem_numberEnds hc
          rw [isNamePart_of_isNameStart hname] at hpart
          cases hpart
      rw [NumberScan.before]
      cases hleft : (scanNumeral (d :: text)).rest with
      | nil => simp [hstart, isDigit_of_mem_numberEnds hc, ne_of_mem_numberEnds hc (d := '\\') rfl]
      | cons e left =>
        rw [hleft] at hscan
        exact hscan.1
    simp only [hclash]
    exact Prod.ext hscan.2.1 hscan.2.2

/-! ## Strings -/

/-- More text does not change an escape with a code. -/
theorem unicodeEscape?_append {code : Nat × Nat} (h : unicodeEscape? text = some code)
    (more : List Char) : unicodeEscape? (text ++ more) = some code := by
  cases text with
  | nil => cases h
  | cons c rest =>
    by_cases hc : c = '{'
    · subst hc
      have hshort : (rest.takeWhile (· != '}')).length ≠ rest.length := by
        intro hall
        simp [unicodeEscape?, hall] at h
      have hdigits : (rest ++ more).takeWhile (· != '}') = rest.takeWhile (· != '}') := by
        rw [List.takeWhile_append, if_neg hshort]
      have hlong : (rest.takeWhile (· != '}')).length ≠ (rest ++ more).length := by
        have hle : (rest.takeWhile (· != '}')).length ≤ rest.length :=
          (List.takeWhile_prefix _).length_le
        rw [List.length_append]
        omega
      rw [← h, List.cons_append]
      simp only [unicodeEscape?, hdigits, beq_eq_false_iff_ne.2 hshort, beq_eq_false_iff_ne.2 hlong]
    · rcases rest with _ | ⟨b, _ | ⟨d, _ | ⟨e, rest⟩⟩⟩
      · simp [unicodeEscape?, hc] at h
      · simp [unicodeEscape?, hc] at h
      · simp [unicodeEscape?, hc] at h
      · rw [← h]
        simp [unicodeEscape?]

/-- More text does not change an octal escape that has ended. -/
theorem octalEscape_append (h : (octalEscape text).2 < text.length) (more : List Char) :
    octalEscape (text ++ more) = octalEscape text := by
  rcases text with _ | ⟨a, _ | ⟨b, _ | ⟨c, rest⟩⟩⟩
  · cases h
  · by_cases ha : '0' ≤ a ∧ a ≤ '7'
    · simp [octalEscape, ha] at h
    · simp [octalEscape, ha]
  · by_cases ha : '0' ≤ a ∧ a ≤ '7'
    · by_cases hb : '0' ≤ b ∧ b ≤ '7'
      · simp [octalEscape, ha, hb] at h
      · simp [octalEscape, ha, hb]
    · simp [octalEscape, ha]
  · simp [octalEscape]

/-- An escape that more of a literal stands after is read alike before any text. -/
theorem scanEscape_append {escape : EscapeScan} (h : scanEscape text = some escape)
    (hwidth : escape.width < text.length) (more : List Char) :
    scanEscape (text ++ more) = some escape := by
  rcases text with _ | ⟨c, rest⟩
  · cases h
  rw [List.cons_append]
  -- Only these kinds look past one character: two digits, a code, a line end, octals.
  by_cases hx : c = 'x'
  · subst hx
    rcases rest with _ | ⟨a, _ | ⟨b, rest⟩⟩
    · cases h
    · cases h
    · exact h
  by_cases hu : c = 'u'
  · subst hu
    obtain ⟨code, hcode, hescape⟩ := Option.map_eq_some_iff.1 (show Option.map _ _ = _ from h)
    exact Option.map_eq_some_iff.2 ⟨code, unicodeEscape?_append hcode more, hescape⟩
  by_cases hr : c = '\r'
  · subst hr
    cases rest with
    | nil =>
      cases h
      cases hwidth with | step h => cases h
    | cons d rest => exact h
  by_cases ho : '0' ≤ c ∧ c ≤ '7'
  · have hne (d : Char) (hd : ¬ ('0' ≤ d ∧ d ≤ '7')) : (c == d) = false := by
      rw [beq_eq_false_iff_ne]
      rintro rfl
      exact hd ho
    have hline : isLineEnd c = false := by
      have hle : c.toNat ≤ 55 := ho.2
      simp [isLineEnd, hne '\n' (by decide), hr]
      omega
    have hoctal := fun hlt => @octalEscape_append (c :: rest) hlt more
    simp only [scanEscape, hne 'n' (by decide), hne 't' (by decide), hne 'r' (by decide),
      hne 'b' (by decide), hne 'v' (by decide), hne 'f' (by decide), hne '\r' (by decide),
      hne 'x' (by decide), hne 'u' (by decide), hline, if_pos ho, Bool.false_eq_true, if_false]
      at h ⊢
    have hhead : rest = [] ∨ (rest ++ more).head? = rest.head? := by
      cases rest with
      | nil => exact .inl rfl
      | cons d rest => exact .inr rfl
    split at h
    · cases h
      rcases hhead with rfl | hhead
      · cases hwidth with | step h => cases h
      · rename_i hnull
        rw [hhead, if_pos hnull]
    · cases h
      rename_i hother
      rw [← List.cons_append, hoctal hwidth, if_neg]
      rcases hhead with rfl | hhead
      · simp_all
      · rwa [hhead]
  · have hzero : (c == '0') = false := by
      rw [beq_eq_false_iff_ne]
      rintro rfl
      exact ho (by decide)
    simp only [scanEscape, beq_eq_false_iff_ne.2 hx, beq_eq_false_iff_ne.2 hu,
      beq_eq_false_iff_ne.2 hr, hzero, if_neg ho, Bool.false_and, Bool.false_eq_true, if_false]
      at h ⊢
    exact h

/-- A string that is closed was closed before units were added. -/
theorem StringScan.add_eq_closed {units all : List CodeUnit} {written : Nat} {scan : StringScan}
    (h : scan.add units = .closed all written) :
    ∃ rest before, scan = .closed rest before ∧ written = before + 1 := by
  cases scan with
  | closed rest before =>
    cases h
    exact ⟨rest, before, rfl, rfl⟩
  | _ => cases h

/-- What belongs to an escape ends before the literal does. -/
theorem lt_length_of_scanString {quote : Char} {skip written : Nat} {units : List CodeUnit}
    (h : scanString quote skip text = .closed units written) : skip < text.length := by
  induction text generalizing skip units written with
  | nil => cases skip <;> cases h
  | cons c rest ih =>
    cases skip with
    | zero => exact Nat.succ_pos _
    | succ skip =>
      obtain ⟨_, _, hrest, -⟩ := StringScan.add_eq_closed (show StringScan.add _ _ = _ from h)
      exact Nat.succ_lt_succ (ih hrest)

/-- A literal that ends is read alike before more text. -/
theorem scanString_append_of_closed {quote : Char} {skip written : Nat} {units : List CodeUnit}
    (h : scanString quote skip text = .closed units written) (more : List Char) :
    scanString quote skip (text ++ more) = .closed units written := by
  induction text generalizing skip units written with
  | nil => cases skip <;> cases h
  | cons c rest ih =>
    -- A string that is closed never looks past its quote.
    have hadd {skip : Nat} {units' : List CodeUnit}
        (h : (scanString quote skip rest).add units' = .closed units written) :
        (scanString quote skip (rest ++ more)).add units' = .closed units written := by
      obtain ⟨_, _, hrest, -⟩ := StringScan.add_eq_closed h
      rw [ih hrest, ← hrest, h]
    cases skip with
    | succ skip => exact hadd h
    | zero =>
      rw [List.cons_append]
      unfold scanString at h ⊢
      split at h
      · rename_i hquote
        rw [if_pos hquote, h]
      · rename_i hquote
        rw [if_neg hquote]
        split at h
        · cases h
        · rename_i hline
          rw [if_neg hline]
          split at h
          · rename_i hescape
            rw [if_pos hescape]
            cases hscan : scanEscape rest with
            | none =>
              rw [hscan] at h
              dsimp only at h
              split at h <;> cases h
            | some escape =>
              rw [hscan] at h
              obtain ⟨_, _, hrest, -⟩ := StringScan.add_eq_closed h
              rw [scanEscape_append hscan (lt_length_of_scanString hrest)]
              exact hadd h
          · rename_i hescape
            rw [if_neg hescape]
            exact hadd h

/-- The token that a string literal is. -/
def StringScan.token : StringScan → TokenKind × Nat
  | .closed units written => (.string (unitsText units), written + 1)
  | .unclosed => (.fault .unterminatedString, 1)
  | .badEscape => (.fault .badEscape, 1)

/-- A quote opens a string. -/
theorem scanKind_of_quote (hc : c = '"' ∨ c = '\'') (rest : List Char) :
    scanKind (c :: rest) = (scanString c 0 rest).token := by
  rcases hc with rfl | rfl
  · have hname : (isNameStart '"' || '"' == '\\') = false := by decide
    rw [scanKind, hname]
    rfl
  · have hname : (isNameStart '\'' || '\'' == '\\') = false := by decide
    rw [scanKind, hname]
    rfl

/-- A string literal is the same token whatever stands after it. -/
theorem scanKind_append_of_quote (hc : c = '"' ∨ c = '\'') {rest : List Char} {value : String}
    {width : Nat} (h : scanKind (c :: rest) = (.string value, width)) (more : List Char) :
    scanKind (c :: rest ++ more) = (.string value, width) := by
  rw [scanKind_of_quote hc] at h
  rw [List.cons_append, scanKind_of_quote hc, ← h]
  cases hscan : scanString c 0 rest with
  | closed units written => rw [scanString_append_of_closed hscan]
  | _ =>
    rw [hscan] at h
    cases h

/-! ## Other characters -/

/-- A dot before a name is a token of its own. -/
theorem scanKind_dot (hc : isNameStart c = true) (text : List Char) :
    scanKind ('.' :: c :: text) = (.punct .dot, 1) := by
  have hdigit : c.isDigit = false := by
    cases h : c.isDigit with
    | false => rfl
    | true =>
      rw [isNameStart_of_isDigit h] at hc
      cases hc
  have hdot : c ≠ '.' := by
    rintro rfl
    cases hc
  have hpunct : scanPunct? Punct.direct ('.' :: c :: text) = some .dot := by
    have hellipsis : ['.', '.'].isPrefixOf (c :: text) = false := by
      rw [List.isPrefixOf, beq_eq_false_iff_ne.2 (Ne.symm hdot), Bool.false_and]
    simp [scanPunct?, Punct.direct, Punct.text, hellipsis]
  have hname : isNameStart '.' = false := by decide
  simp [scanKind, hpunct, hname, hdigit]
  rfl

/-! ## Blanks -/

/-- Whether a character is no blank and begins no comment. -/
def isSolid (c : Char) : Bool := !isLineEnd c && !isSpace c && c != '/'

/-- A token is read where it stands. -/
theorem skipBlanks_of_isSolid (hc : isSolid c = true) (offset : Nat) (newLine : Bool)
    (text : List Char) :
    skipBlanks .plain offset newLine (c :: text) = ⟨offset, c :: text, newLine, none⟩ := by
  simp only [isSolid, Bool.and_eq_true, Bool.not_eq_true', bne_iff_ne] at hc
  obtain ⟨⟨hline, hspace⟩, hslash⟩ := hc
  unfold skipBlanks
  simp [hline, hspace, hslash]

/-- A character of names is no blank and begins no comment. -/
theorem isSolid_of_isNamePart (hc : isNamePart c = true) : isSolid c = true := by
  have hchar : ∀ d : Char, isNamePart d = false → (c == d) = false := by
    intro d hd
    rw [beq_eq_false_iff_ne]
    rintro rfl
    rw [hc] at hd
    cases hd
  have hcode : ∀ n, isNamePart (Char.ofNat n) = false → (c.toNat == n) = false := by
    intro n hn
    rw [beq_eq_false_iff_ne]
    rintro rfl
    rw [Char.ofNat_toNat, hc] at hn
    cases hn
  have hrange : (decide (0x2000 ≤ c.toNat) && decide (c.toNat ≤ 0x200B)) = false := by
    have hblanks : ∀ i < 12, isNamePart (Char.ofNat (0x2000 + i)) = false := by decide +kernel
    rw [Bool.and_eq_false_iff, decide_eq_false_iff_not, decide_eq_false_iff_not]
    by_cases hlow : 0x2000 ≤ c.toNat
    · refine .inr fun hhigh => ?_
      have hne := hcode (0x2000 + (c.toNat - 0x2000)) (hblanks _ (by omega))
      rw [Nat.add_sub_cancel' hlow, beq_self_eq_true] at hne
      cases hne
    · exact .inl hlow
  simp only [isSolid, isLineEnd, isSpace, bne, hrange, hchar '\n' (by decide),
    hchar '\r' (by decide), hchar '/' (by decide), hcode 0x2028 (by decide +kernel),
    hcode 0x2029 (by decide +kernel), hcode 9 (by decide), hcode 11 (by decide),
    hcode 12 (by decide), hcode 0x20 (by decide), hcode 0x85 (by decide +kernel),
    hcode 0xA0 (by decide +kernel), hcode 0xFEFF (by decide +kernel),
    hcode 0x1680 (by decide +kernel), hcode 0x180E (by decide +kernel),
    hcode 0x202F (by decide +kernel), hcode 0x205F (by decide +kernel),
    hcode 0x3000 (by decide +kernel)]
  rfl

/-- A digit is part of a name. -/
theorem isNamePart_of_isDigit (hc : c.isDigit = true) : isNamePart c = true := by
  obtain ⟨hlow, hhigh⟩ := isDigit_bounds hc
  rw [isNamePart, isLetterOrMark, if_pos (by omega), Char.isAlphanum, hc]
  simp

/-- A text that begins with a name begins with no blank and no command line. -/
theorem solid_of_isName {name : List Char} (h : isName name = true) (rest : List Char) :
    ∃ c more, name ++ rest = c :: more ∧ isSolid c = true ∧ c ≠ '#' := by
  cases name with
  | nil => cases h
  | cons c name =>
    have hc : isNamePart c = true := isNamePart_of_isName h c (.head _)
    refine ⟨c, name ++ rest, rfl, isSolid_of_isNamePart hc, ?_⟩
    rintro rfl
    cases hc

end MarkupCompiler.Syntax

namespace MarkupCompiler.Grammar

open Syntax Text

/-- The token at the front of a text that no blank begins. -/
theorem readToken_of_isSolid {c : Char} (hc : isSolid c = true) (offset : Nat)
    (text : List Char) {kind : TokenKind} {width : Nat}
    (h : scanKind (c :: text) = (kind, width)) :
    readToken offset (c :: text) =
      (⟨kind, ⟨offset, offset + byteLength ((c :: text).take width)⟩, false⟩, c :: text,
        (c :: text).drop width) := by
  unfold readToken
  rw [skipBlanks_of_isSolid hc]
  dsimp only
  rw [h]

end MarkupCompiler.Grammar
