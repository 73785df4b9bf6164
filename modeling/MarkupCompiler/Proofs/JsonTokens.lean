import MarkupCompiler.Proofs.JsonGrammar

/-!
# Numbers and strings of JSON

Numbers, string literals and the names of members are read exactly as the grammar has them. Each
part of a number is read up to a character that does not belong to it (`EndsNumber`), and a string
literal up to its closing quote. For each part there is one lemma that what is written is read, and
one that what is read is written.
-/

namespace MarkupCompiler.Json

open Text (CodeUnit)

/-! ## Numbers -/

/-- What may stand after a number: nothing that would belong to it. -/
def EndsNumber (rest : List Char) : Prop :=
  ∀ c ∈ rest.head?, c.isDigit = false ∧ c ≠ '.' ∧ c ≠ 'e' ∧ c ≠ 'E'

/-- Blanks end a number. -/
theorem EndsNumber.append {blanks rest : List Char} (hb : Blanks blanks) (h : EndsNumber rest) :
    EndsNumber (blanks ++ rest) := by
  cases blanks with
  | nil => exact h
  | cons c blanks =>
    intro x hx
    obtain rfl : c = x := by simpa using hx
    rcases hb c (.head _) with rfl | rfl | rfl | rfl <;> decide

/-- No digits are taken from what does not begin with one. -/
theorem takeWhile_isDigit {rest : List Char} (h : ∀ c ∈ rest.head?, c.isDigit = false) :
    rest.takeWhile Char.isDigit = [] := by
  cases rest with
  | nil => rfl
  | cons c rest => rw [List.takeWhile_cons, h c rfl]; rfl

/-- No digits are dropped from what does not begin with one. -/
theorem dropWhile_isDigit {rest : List Char} (h : ∀ c ∈ rest.head?, c.isDigit = false) :
    rest.dropWhile Char.isDigit = rest := by
  cases rest with
  | nil => rfl
  | cons c rest => rw [List.dropWhile_cons, h c rfl]; rfl

/-- Digits are read up to the first character that is none. -/
theorem readDigits_append {digits rest : List Char} (hd : Digits digits)
    (h : ∀ c ∈ rest.head?, c.isDigit = false) :
    readDigits (digits ++ rest) = some (digits, rest) := by
  have htake : (digits ++ rest).takeWhile Char.isDigit = digits := by
    rw [List.takeWhile_append_of_pos hd.2, takeWhile_isDigit h, List.append_nil]
  have hdrop : (digits ++ rest).dropWhile Char.isDigit = rest := by
    rw [List.dropWhile_append_of_pos hd.2, dropWhile_isDigit h]
  rw [readDigits, htake, hdrop]
  split
  · exact absurd rfl hd.1
  · rfl

/-- What is read as digits are digits. -/
theorem readDigits_sound {text digits rest : List Char}
    (h : readDigits text = some (digits, rest)) :
    Digits digits ∧ text = digits ++ rest := by
  rw [readDigits] at h
  split at h
  · cases h
  · rename_i hne
    obtain ⟨rfl, rfl⟩ := Prod.mk.inj (Option.some.inj h)
    exact ⟨⟨fun hnil => hne hnil, List.all_eq_true.1 List.all_takeWhile⟩,
      List.takeWhile_append_dropWhile.symm⟩

/-- The whole part of a number is read up to the first character that is no digit. -/
theorem readWhole_append {whole rest : List Char} (hw : Whole whole)
    (h : ∀ c ∈ rest.head?, c.isDigit = false) : readWhole (whole ++ rest) = some (whole, rest) := by
  cases hw with
  | zero =>
    show (if (rest.takeWhile Char.isDigit).isEmpty then _ else _) = _
    rw [takeWhile_isDigit h]
    rfl
  | digits hd hfirst =>
    rw [readWhole]
    · exact readDigits_append hd h
    · intro tail htail
      obtain ⟨c, digits, rfl⟩ := List.exists_cons_of_ne_nil hd.1
      exact hfirst (congrArg some (List.cons.inj htail).1)

/-- What is read as the whole part of a number is one: a zero stands alone. -/
theorem readWhole_sound {text whole rest : List Char} (h : readWhole text = some (whole, rest)) :
    Whole whole ∧ text = whole ++ rest := by
  fun_cases readWhole text with
  | case1 tail hempty =>
    rw [readWhole, if_pos hempty] at h
    obtain ⟨rfl, rfl⟩ := Prod.mk.inj (Option.some.inj h)
    exact ⟨.zero, rfl⟩
  | case2 tail hempty =>
    rw [readWhole, if_neg hempty] at h
    cases h
  | case3 _ hzero =>
    rw [readWhole] at h
    · obtain ⟨hd, rfl⟩ := readDigits_sound h
      refine ⟨.digits hd fun hfirst => ?_, rfl⟩
      obtain ⟨tail, rfl⟩ := List.head?_eq_some_iff.1 hfirst
      exact hzero _ rfl
    · exact hzero

/-- A fraction is read up to a character that is neither a digit nor a point. -/
theorem readFraction_append {fraction rest : List Char} (hf : Fraction fraction)
    (h : ∀ c ∈ rest.head?, c.isDigit = false ∧ c ≠ '.') :
    readFraction (fraction ++ rest) = some (fraction, rest) := by
  cases hf with
  | none =>
    rw [List.nil_append, readFraction]
    rintro tail rfl
    exact (h _ rfl).2 rfl
  | point hd =>
    rw [List.cons_append, readFraction, readDigits_append hd fun c hc => (h c hc).1]
    rfl

/-- What is read as a fraction is one. -/
theorem readFraction_sound {text fraction rest : List Char}
    (h : readFraction text = some (fraction, rest)) :
    Fraction fraction ∧ text = fraction ++ rest := by
  fun_cases readFraction text with
  | case1 tail =>
    rw [readFraction, Option.map_eq_some_iff] at h
    obtain ⟨⟨digits, tail⟩, hread, heq⟩ := h
    obtain ⟨rfl, rfl⟩ := Prod.mk.inj heq
    obtain ⟨hd, rfl⟩ := readDigits_sound hread
    exact ⟨.point hd, rfl⟩
  | case2 _ hpoint =>
    rw [readFraction] at h
    · obtain ⟨rfl, rfl⟩ := Prod.mk.inj (Option.some.inj h)
      exact ⟨.none, rfl⟩
    · exact hpoint

/-- There is no exponent without its mark. -/
theorem readExponent_of_not_mark {c : Char} (h : (c == 'e' || c == 'E') = false)
    (rest : List Char) : readExponent (c :: rest) = some ([], c :: rest) := by
  cases rest <;> rw [readExponent, h, if_neg (by decide)]

/-- An exponent is read up to what does not belong to a number. -/
theorem readExponent_append {exponent rest : List Char} (he : Exponent exponent)
    (h : EndsNumber rest) : readExponent (exponent ++ rest) = some (exponent, rest) := by
  have hdigit : ∀ c ∈ rest.head?, c.isDigit = false := fun c hc => (h c hc).1
  cases he with
  | none =>
    cases rest with
    | nil => rfl
    | cons c rest =>
      exact readExponent_of_not_mark (by simp [(h c rfl).2.2]) rest
  | @plain mark text hmark hd =>
    have hmark : (mark == 'e' || mark == 'E') = true := by simpa using hmark
    obtain ⟨c, digits, rfl⟩ := List.exists_cons_of_ne_nil hd.1
    -- The first digit is not taken for a sign.
    have hsign : (c == '+' || c == '-') = false := by
      have hc := hd.2 c (.head _)
      by_cases hsign : c = '+' ∨ c = '-'
      · rcases hsign with rfl | rfl <;> exact absurd hc (by decide)
      · simpa using hsign
    have hread := readDigits_append hd hdigit
    rw [List.cons_append] at hread
    rw [List.cons_append, List.cons_append, readExponent, if_pos hmark, hsign, if_neg (by decide),
      hread]
    rfl
  | @signed mark sign text hmark hsign hd =>
    have hmark : (mark == 'e' || mark == 'E') = true := by simpa using hmark
    have hsign : (sign == '+' || sign == '-') = true := by simpa using hsign
    rw [List.cons_append, List.cons_append, readExponent, if_pos hmark, if_pos hsign,
      readDigits_append hd hdigit]
    rfl

/-- What is read as an exponent is one. -/
theorem readExponent_sound {text exponent rest : List Char}
    (h : readExponent text = some (exponent, rest)) :
    Exponent exponent ∧ text = exponent ++ rest := by
  fun_cases readExponent text with
  | case1 c hmark s tail hsign =>
    rw [readExponent, if_pos hmark, if_pos hsign, Option.map_eq_some_iff] at h
    obtain ⟨⟨digits, tail⟩, hread, heq⟩ := h
    obtain ⟨rfl, rfl⟩ := Prod.mk.inj heq
    obtain ⟨hd, rfl⟩ := readDigits_sound hread
    exact ⟨.signed (by simpa using hmark) (by simpa using hsign) hd, rfl⟩
  | case2 c hmark s tail hsign =>
    rw [readExponent, if_pos hmark, if_neg hsign, Option.map_eq_some_iff] at h
    obtain ⟨⟨digits, tail⟩, hread, heq⟩ := h
    obtain ⟨rfl, rfl⟩ := Prod.mk.inj heq
    obtain ⟨hd, htext⟩ := readDigits_sound hread
    exact ⟨.plain (by simpa using hmark) hd, by rw [htext]; rfl⟩
  | case3 c hmark =>
    rw [readExponent, if_pos hmark] at h
    cases h
  | case4 c tail hmark =>
    rw [readExponent_of_not_mark (by simpa using hmark)] at h
    obtain ⟨rfl, rfl⟩ := Prod.mk.inj (Option.some.inj h)
    exact ⟨.none, rfl⟩
  | case5 =>
    obtain ⟨rfl, rfl⟩ := Prod.mk.inj (Option.some.inj h)
    exact ⟨.none, rfl⟩

/-- The parts of a number after its sign are read one after the other. -/
theorem readParts_append {whole fraction exponent rest : List Char} (hw : Whole whole)
    (hf : Fraction fraction) (he : Exponent exponent) (h : EndsNumber rest) :
    readWhole (whole ++ (fraction ++ (exponent ++ rest))) =
        some (whole, fraction ++ (exponent ++ rest)) ∧
      readFraction (fraction ++ (exponent ++ rest)) = some (fraction, exponent ++ rest) ∧
      readExponent (exponent ++ rest) = some (exponent, rest) := by
  -- What follows the whole part begins with a point, a mark, or what stands after the number.
  have hexponent : ∀ c ∈ (exponent ++ rest).head?, c.isDigit = false ∧ c ≠ '.' := by
    cases he with
    | none => exact fun c hc => ⟨(h c hc).1, (h c hc).2.1⟩
    | plain hmark _ | signed hmark _ _ =>
      intro c hc
      obtain rfl := Option.some.inj hc
      rcases hmark with rfl | rfl <;> decide
  have hfraction : ∀ c ∈ (fraction ++ (exponent ++ rest)).head?, c.isDigit = false := by
    cases hf with
    | none => exact fun c hc => (hexponent c hc).1
    | point _ =>
      intro c hc
      obtain rfl := Option.some.inj hc
      rfl
  exact ⟨readWhole_append hw hfraction, readFraction_append hf hexponent, readExponent_append he h⟩

/-- The whole part of a number does not begin with a sign. -/
theorem Whole.append_ne {whole rest : List Char} (hw : Whole whole) (tail : List Char) :
    whole ++ rest ≠ '-' :: tail := by
  intro heq
  cases hw with
  | zero => exact absurd (List.cons.inj heq).1 (by decide)
  | digits hd _ =>
    obtain ⟨c, digits, rfl⟩ := List.exists_cons_of_ne_nil hd.1
    obtain rfl := (List.cons.inj heq).1
    exact absurd (hd.2 _ (.head _)) (by decide)

/-- A number is read as its sign, if it has one, and the parts after it. -/
theorem readNumber_eq {text : List Char} (sign : List Char)
    (h : sign = ['-'] ∨ sign = [] ∧ ∀ tail, text ≠ '-' :: tail) :
    readNumber (sign ++ text) = do
      let (whole, rest) ← readWhole text
      let (fraction, rest) ← readFraction rest
      let (exponent, rest) ← readExponent rest
      return (.number (sign ++ whole ++ fraction ++ exponent), rest) := by
  rcases h with rfl | ⟨rfl, hsign⟩
  · rfl
  · rw [List.nil_append, readNumber]
    exact hsign

/-- A number is a sign or none and the parts after it. -/
theorem number_iff {text : List Char} :
    Number text ↔ ∃ sign whole fraction exponent, (sign = ['-'] ∨ sign = []) ∧ Whole whole ∧
      Fraction fraction ∧ Exponent exponent ∧ text = sign ++ (whole ++ fraction ++ exponent) := by
  constructor
  · intro h
    cases h with
    | positive hw hf he => exact ⟨[], _, _, _, .inr rfl, hw, hf, he, rfl⟩
    | negative hw hf he => exact ⟨['-'], _, _, _, .inl rfl, hw, hf, he, rfl⟩
  · rintro ⟨sign, whole, fraction, exponent, rfl | rfl, hw, hf, he, rfl⟩
    · exact .negative hw hf he
    · exact .positive hw hf he

variable {text rest : List Char}

/-- A number is read up to what does not belong to it. -/
theorem readNumber_append (hn : Number text) (h : EndsNumber rest) :
    readNumber (text ++ rest) = some (.number text, rest) := by
  obtain ⟨sign, whole, fraction, exponent, hsign, hw, hf, he, rfl⟩ := number_iff.1 hn
  obtain ⟨hwhole, hfraction, hexponent⟩ := readParts_append hw hf he h
  rw [List.append_assoc, List.append_assoc, List.append_assoc, readNumber_eq sign]
  · simp [hwhole, hfraction, hexponent]
  · exact hsign.imp_right fun hsign => ⟨hsign, hw.append_ne⟩

/-- What is read as a number is one. -/
theorem readNumber_sound {value : Json} (h : readNumber text = some (value, rest)) :
    ∃ number, value = .number number ∧ Number number ∧ text = number ++ rest := by
  obtain ⟨sign, body, rfl, hsign⟩ : ∃ sign body, text = sign ++ body ∧
      (sign = ['-'] ∨ sign = [] ∧ ∀ tail, body ≠ '-' :: tail) := by
    by_cases hsign : ∃ tail, text = '-' :: tail
    · obtain ⟨tail, rfl⟩ := hsign
      exact ⟨['-'], tail, rfl, .inl rfl⟩
    · exact ⟨[], text, rfl, .inr ⟨rfl, fun tail htail => hsign ⟨tail, htail⟩⟩⟩
  rw [readNumber_eq sign hsign] at h
  obtain ⟨⟨whole, left⟩, hwhole, h⟩ := Option.bind_eq_some_iff.1 h
  obtain ⟨⟨fraction, left'⟩, hfraction, h⟩ := Option.bind_eq_some_iff.1 h
  obtain ⟨⟨exponent, left''⟩, hexponent, h⟩ := Option.bind_eq_some_iff.1 h
  obtain ⟨rfl, rfl⟩ := Prod.mk.inj (Option.some.inj h)
  obtain ⟨hw, rfl⟩ := readWhole_sound hwhole
  obtain ⟨hf, rfl⟩ := readFraction_sound hfraction
  obtain ⟨he, rfl⟩ := readExponent_sound hexponent
  refine ⟨_, rfl, number_iff.2 ⟨sign, whole, fraction, exponent, ?_, hw, hf, he, ?_⟩, ?_⟩
  · exact hsign.imp_right And.left
  · simp only [List.append_assoc]
  · simp only [List.append_assoc]

/-! ## String literals -/

/-- The units of a literal are read up to its closing quote. -/
theorem readUnits_append {units : List CodeUnit} {text : List Char} (h : Units units text)
    (rest : List Char) : readUnits (text ++ '"' :: rest) = some (units, rest) := by
  induction h with
  | nil => rfl
  | plain hspace hquote hescape _ ih =>
    rw [List.cons_append, readUnits, if_neg (not_or.2 ⟨Nat.not_lt.2 hspace, hescape⟩), ih]
    · rfl
    · exact hquote
    · exact fun _ _ _ _ _ h _ => hescape h
    · exact fun _ _ h _ => hescape h
  | sign hc _ ih =>
    rw [List.cons_append, List.cons_append, readUnits, hc, ih]
    · rfl
    · rintro _ _ _ _ _ rfl _
      cases hc
  | code hn _ ih =>
    simp only [List.cons_append]
    rw [readUnits, hn, Option.bind_eq_bind, Option.bind_some, ih]
    rfl

/-- What is read as the units of a literal, one of the four kinds at a time, writes them. -/
theorem readUnits_sound {units : List CodeUnit} (h : readUnits text = some (units, rest)) :
    ∃ written, Units units written ∧ text = written ++ '"' :: rest := by
  induction text using readUnits.induct generalizing units with
  | case1 tail =>
    obtain ⟨rfl, rfl⟩ := Prod.mk.inj (Option.some.inj h)
    exact ⟨[], .nil, rfl⟩
  | case2 a b c d tail ih =>
    rw [readUnits] at h
    obtain ⟨n, hn, h⟩ := Option.bind_eq_some_iff.1 h
    obtain ⟨⟨units, rest⟩, hread, h⟩ := Option.bind_eq_some_iff.1 h
    obtain ⟨rfl, rfl⟩ := Prod.mk.inj (Option.some.inj h)
    obtain ⟨written, hwritten, rfl⟩ := ih hread
    exact ⟨_, .code hn hwritten, rfl⟩
  -- The goals left by the rewriting say that no earlier case of the reader applies.
  | case3 c tail hcode ih =>
    rw [readUnits] at h
    · obtain ⟨character, hc, h⟩ := Option.bind_eq_some_iff.1 h
      obtain ⟨⟨units, rest⟩, hread, h⟩ := Option.bind_eq_some_iff.1 h
      obtain ⟨rfl, rfl⟩ := Prod.mk.inj (Option.some.inj h)
      obtain ⟨written, hwritten, rfl⟩ := ih hread
      exact ⟨_, .sign hc hwritten, rfl⟩
    · exact hcode
  | case4 c tail hquote hcode hsign hbad =>
    rw [readUnits, if_pos hbad] at h
    · cases h
    · exact hquote
    · exact hcode
    · exact hsign
  | case5 c tail hquote hcode hsign hgood ih =>
    rw [readUnits, if_neg hgood] at h
    · obtain ⟨⟨units, rest⟩, hread, h⟩ := Option.bind_eq_some_iff.1 h
      obtain ⟨rfl, rfl⟩ := Prod.mk.inj (Option.some.inj h)
      obtain ⟨written, hwritten, rfl⟩ := ih hread
      obtain ⟨hspace, hescape⟩ := not_or.1 hgood
      exact ⟨_, .plain (Nat.not_lt.1 hspace) hquote hescape hwritten, rfl⟩
    · exact hquote
    · exact hcode
    · exact hsign
  | case6 => cases h

/-- The value of a string literal. -/
def ofLiteral : Option String → Json
  | some text => string text
  | none => brokenString

/-- The value of a literal is found from its units. -/
theorem readString_eq (text : List Char) :
    readString text = (readUnits text).map fun read =>
      (ofLiteral ((CodeUnit.join? read.1).map String.ofList), read.2) := by
  rw [readString]
  cases readUnits text with
  | none => rfl
  | some read =>
    rw [Option.bind_eq_bind, Option.bind_some, Option.map_some]
    dsimp only
    cases CodeUnit.join? read.1 <;> rfl

/-- A string literal writes its value. -/
theorem Literal.written {text : Option String} {literal : List Char} (h : Literal text literal) :
    Written (ofLiteral text) literal := by
  cases text with
  | some text => exact .string h
  | none => exact .brokenString h

/-- A name is read up to its colon. -/
theorem readName_append {name : Option String} {text : List Char} (h : Name name text)
    (rest : List Char) : readName (text ++ ':' :: rest) = some (name, rest) := by
  obtain ⟨hbefore, ⟨hunits⟩, hafter⟩ := h
  rw [readName, List.append_assoc, skipBlanks_append hbefore]
  simp only [List.cons_append, List.append_assoc, List.nil_append]
  show (readUnits _ >>= _) = _
  rw [readUnits_append hunits, Option.bind_eq_bind, Option.bind_some]
  dsimp only
  rw [skipBlanks_append hafter]
  rfl

/-- What is read as a name is one. -/
theorem readName_sound {name : Option String} (h : readName text = some (name, rest)) :
    ∃ written, Name name written ∧ text = written ++ ':' :: rest := by
  obtain ⟨before, hbefore, htext⟩ := exists_blanks text
  rw [readName] at h
  split at h
  · rename_i tail hquote
    obtain ⟨⟨units, tail'⟩, hread, hafter⟩ := Option.bind_eq_some_iff.1 h
    obtain ⟨written, hunits, htail⟩ := readUnits_sound hread
    obtain ⟨after, hblanks, htail'⟩ := exists_blanks tail'
    dsimp only at hafter
    split at hafter
    · rename_i hcolon
      obtain ⟨rfl, rfl⟩ := Prod.mk.inj (Option.some.inj hafter)
      refine ⟨_, ⟨hbefore, ⟨hunits⟩, hblanks⟩, ?_⟩
      rw [htext, hquote, htail, htail', hcolon]
      simp
    · cases hafter
  · cases h

end MarkupCompiler.Json
