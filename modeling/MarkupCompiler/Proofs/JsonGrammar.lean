import MarkupCompiler.Json.Reader

/-!
# The grammar of JSON

`Written value text` says that a text writes a value, by the rules of JSON: blanks may stand before
and after every value and every name, the characters of a string may be escaped or not, and a number
keeps its spelling. Behind its blanks, the first character of a text tells what it may be
(`Written.begins`).
-/

namespace MarkupCompiler.Json

open Text (CodeUnit)

/-! ## The rules -/

/-- Blanks between the parts of a text. -/
def Blanks (text : List Char) : Prop := ∀ c ∈ text, c = ' ' ∨ c = '\t' ∨ c = '\n' ∨ c = '\r'

/-- Digits, at least one. -/
def Digits (text : List Char) : Prop := text ≠ [] ∧ ∀ c ∈ text, c.isDigit = true

/-- The whole part of a number. -/
inductive Whole : List Char → Prop
  | zero : Whole ['0']
  | digits {text : List Char} (h : Digits text) (hfirst : text.head? ≠ some '0') : Whole text

/-- The fraction of a number, if any. -/
inductive Fraction : List Char → Prop
  | none : Fraction []
  | point {text : List Char} (h : Digits text) : Fraction ('.' :: text)

/-- The exponent of a number, if any. -/
inductive Exponent : List Char → Prop
  | none : Exponent []
  | plain {mark : Char} {text : List Char} (hmark : mark = 'e' ∨ mark = 'E') (h : Digits text) :
    Exponent (mark :: text)
  | signed {mark sign : Char} {text : List Char} (hmark : mark = 'e' ∨ mark = 'E')
    (hsign : sign = '+' ∨ sign = '-') (h : Digits text) : Exponent (mark :: sign :: text)

/-- A number. -/
inductive Number : List Char → Prop
  | positive {whole fraction exponent : List Char} (hw : Whole whole) (hf : Fraction fraction)
    (he : Exponent exponent) : Number (whole ++ fraction ++ exponent)
  | negative {whole fraction exponent : List Char} (hw : Whole whole) (hf : Fraction fraction)
    (he : Exponent exponent) : Number ('-' :: (whole ++ fraction ++ exponent))

/-- The units of a string literal: each is written as it is, with a sign of its own, or with four
digits. -/
inductive Units : List CodeUnit → List Char → Prop
  | nil : Units [] []
  | plain {c : Char} {units : List CodeUnit} {text : List Char} (hspace : 32 ≤ c.toNat)
    (hquote : c ≠ '"') (hescape : c ≠ '\\') (h : Units units text) :
    Units (.char c :: units) (c :: text)
  | sign {c sign : Char} {units : List CodeUnit} {text : List Char} (hc : escapeOf? sign = some c)
    (h : Units units text) : Units (.char c :: units) ('\\' :: sign :: text)
  | code {a b c d : Char} {n : Nat} {units : List CodeUnit} {text : List Char}
    (hn : Text.digitsValue? 16 0 [a, b, c, d] = some n) (h : Units units text) :
    Units (.ofCode n :: units) ('\\' :: 'u' :: a :: b :: c :: d :: text)

/-- A string literal, and its text if it has one. -/
inductive Literal : Option String → List Char → Prop
  | mk {units : List CodeUnit} {text : List Char} (h : Units units text) :
    Literal ((CodeUnit.join? units).map String.ofList) ('"' :: (text ++ ['"']))

/-- The name of a member, with blanks around it. -/
inductive Name : Option String → List Char → Prop
  | mk {before literal after : List Char} {name : Option String} (hbefore : Blanks before)
    (h : Literal name literal) (hafter : Blanks after) : Name name (before ++ (literal ++ after))

mutual

/-- The texts of a value. -/
inductive Written : Json → List Char → Prop
  | blanks {before text after : List Char} {value : Json} (hbefore : Blanks before)
    (h : Written value text) (hafter : Blanks after) : Written value (before ++ (text ++ after))
  | null : Written .null ['n', 'u', 'l', 'l']
  | true : Written (.bool true) ['t', 'r', 'u', 'e']
  | false : Written (.bool false) ['f', 'a', 'l', 's', 'e']
  | number {text : List Char} (h : Number text) : Written (.number text) text
  | string {literal : List Char} {text : String} (h : Literal (some text) literal) :
    Written (.string text) literal
  | brokenString {literal : List Char} (h : Literal none literal) : Written .brokenString literal
  | emptyArray {text : List Char} (h : Blanks text) : Written (.array []) ('[' :: (text ++ [']']))
  | array {items : List Json} {text : List Char} (h : WrittenItems items text) :
    Written (.array items) ('[' :: (text ++ [']']))
  | emptyObject {text : List Char} (h : Blanks text) : Written (.object []) ('{' :: (text ++ ['}']))
  | object {members : List (Option String × Json)} {text : List Char}
    (h : WrittenMembers members text) : Written (ofMembers members) ('{' :: (text ++ ['}']))

/-- The texts of the items of an array, at least one. -/
inductive WrittenItems : List Json → List Char → Prop
  | last {value : Json} {text : List Char} (h : Written value text) : WrittenItems [value] text
  | cons {value : Json} {items : List Json} {text texts : List Char} (h : Written value text)
    (hs : WrittenItems items texts) : WrittenItems (value :: items) (text ++ ',' :: texts)

/-- The texts of the members of an object, at least one. -/
inductive WrittenMembers : List (Option String × Json) → List Char → Prop
  | last {name : Option String} {value : Json} {nameText text : List Char} (hn : Name name nameText)
    (h : Written value text) : WrittenMembers [(name, value)] (nameText ++ ':' :: text)
  | cons {name : Option String} {value : Json} {members : List (Option String × Json)}
    {nameText text texts : List Char} (hn : Name name nameText) (h : Written value text)
    (hs : WrittenMembers members texts) :
    WrittenMembers ((name, value) :: members) (nameText ++ ':' :: (text ++ ',' :: texts))

end

/-! ## Blanks -/

/-- There may be no blanks. -/
theorem Blanks.nil : Blanks [] := fun _ h => absurd h List.not_mem_nil

/-- Blanks at the front of a text are skipped. -/
theorem skipBlanks_append {blanks : List Char} (h : Blanks blanks) (text : List Char) :
    skipBlanks (blanks ++ text) = skipBlanks text :=
  List.dropWhile_append_of_pos fun c hc => by
    rcases h c hc with rfl | rfl | rfl | rfl <;> rfl

/-- The blanks at the front of a text, and the rest of it. -/
theorem exists_blanks (text : List Char) :
    ∃ blanks, Blanks blanks ∧ text = blanks ++ skipBlanks text := by
  refine ⟨text.takeWhile _, fun c hc => ?_, List.takeWhile_append_dropWhile.symm⟩
  have hblank := List.all_eq_true.1 List.all_takeWhile c hc
  simp only [Bool.or_eq_true, beq_iff_eq] at hblank
  rcases hblank with ((hc | hc) | hc) | hc <;> simp [hc]

/-! ## How values begin -/

/-- The characters that a value may begin with. -/
def Opens (c : Char) : Prop :=
  c = 'n' ∨ c = 't' ∨ c = 'f' ∨ c = '"' ∨ c = '[' ∨ c = '{' ∨ c = '-' ∨ c.isDigit = true

/-- A character that begins a value is no blank. -/
theorem Opens.skipBlanks_cons {c : Char} (h : Opens c) (text : List Char) :
    skipBlanks (c :: text) = c :: text := by
  have hblank : ∀ b ∈ [' ', '\t', '\n', '\r'], c ≠ b := by
    rintro b hb rfl
    simp only [List.mem_cons, List.not_mem_nil, or_false] at hb
    rcases hb with rfl | rfl | rfl | rfl <;> exact absurd h (by unfold Opens; decide)
  simp [skipBlanks, hblank]

/-- A text whose first character after blanks may begin a value. -/
def Begins (text : List Char) : Prop :=
  ∃ blanks c tail, Blanks blanks ∧ Opens c ∧ text = blanks ++ c :: tail

/-- The first character behind the blanks is the same with more text after it. -/
theorem Begins.append {text : List Char} (h : Begins text) (rest : List Char) :
    ∃ c tail, Opens c ∧ skipBlanks (text ++ rest) = c :: tail := by
  obtain ⟨blanks, c, tail, hblanks, hc, rfl⟩ := h
  refine ⟨c, tail ++ rest, hc, ?_⟩
  rw [List.append_assoc, skipBlanks_append hblanks, List.cons_append, hc.skipBlanks_cons]

/-- A text may begin with no blanks. -/
theorem Begins.cons {c : Char} (h : Opens c) (text : List Char) : Begins (c :: text) :=
  ⟨[], c, text, .nil, h, rfl⟩

/-- A number begins with a sign or a digit. -/
theorem Number.opens {text : List Char} (h : Number text) :
    ∃ c tail, (c = '-' ∨ c.isDigit = true) ∧ text = c :: tail := by
  cases h with
  | positive hw _ _ =>
    cases hw with
    | zero => exact ⟨'0', _, .inr rfl, rfl⟩
    | digits hd _ =>
      obtain ⟨c, digits, rfl⟩ := List.exists_cons_of_ne_nil hd.1
      exact ⟨c, _, .inr (hd.2 c (.head _)), rfl⟩
  | negative _ _ _ => exact ⟨'-', _, .inl rfl, rfl⟩

/-- A string literal begins with its quote. -/
theorem Literal.begins {text : Option String} {literal : List Char} (h : Literal text literal) :
    Begins literal := by
  cases h with
  | mk _ => exact .cons (by unfold Opens; decide) _

/-- Every value begins with one of these characters. -/
theorem Written.begins {value : Json} {text : List Char} : Written value text → Begins text
  | .blanks hbefore h _ => by
    obtain ⟨blanks, c, tail, hblanks, hc, rfl⟩ := h.begins
    refine ⟨_ ++ blanks, c, _, fun x hx => ?_, hc, by simp [List.append_assoc]; rfl⟩
    exact (List.mem_append.1 hx).elim (hbefore x) (hblanks x)
  | .null | .true | .false => .cons (by unfold Opens; decide) _
  | .emptyArray _ | .array _ | .emptyObject _ | .object _ => .cons (by unfold Opens; decide) _
  | .number h => by
    obtain ⟨c, tail, hc, rfl⟩ := h.opens
    exact .cons (.inr (.inr (.inr (.inr (.inr (.inr hc)))))) _
  | .string h | .brokenString h => h.begins

/-- The items of an array begin as the first of them does. -/
theorem WrittenItems.begins {items : List Json} {text : List Char} :
    WrittenItems items text → Begins text
  | .last h => h.begins
  | .cons h _ => by
    obtain ⟨blanks, c, tail, hblanks, hc, rfl⟩ := h.begins
    exact ⟨blanks, c, _, hblanks, hc, by rw [List.append_assoc]; rfl⟩

/-- The name of a member begins with the quote of a literal. -/
theorem Name.begins {name : Option String} {text : List Char} (h : Name name text)
    (rest : List Char) : Begins (text ++ rest) := by
  obtain ⟨hbefore, ⟨hunits⟩, -⟩ := h
  exact ⟨_, '"', _, hbefore, by unfold Opens; decide, by simp only [List.append_assoc]; rfl⟩

/-- The members of an object begin with a name. -/
theorem WrittenMembers.begins {members : List (Option String × Json)} {text : List Char} :
    WrittenMembers members text → Begins text
  | .last hn _ => hn.begins _
  | .cons hn _ _ => hn.begins _

end MarkupCompiler.Json
