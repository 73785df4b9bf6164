import MarkupCompiler.Proofs.StringLiterals
import MarkupCompiler.Proofs.TemplateNames
import MarkupCompiler.Proofs.TermModules

/-!
# Array literals of texts

Texts are written as an array literal of string literals. The array is read back as the texts, as a
value of JSON (`parse?_quoteArray`) and as an expression of the language
(`parseModule_quoteArray`). So no two lists of texts are written alike, and a table of templates
gives two of them one name only if they are the same list.
-/

namespace MarkupCompiler.Text

/-- What stands after an item of an array literal, before as many more items. -/
def itemsTail : List String → List Char
  | [] => [']']
  | text :: texts => ',' :: ' ' :: (quoteChars text.toList ++ itemsTail texts)

/-- An array literal without items. -/
theorem toList_quoteArray_nil : (quoteArray []).toList = ['[', ']'] := by
  decide

/-- An array literal with items. -/
theorem toList_quoteArray_cons (text : String) (texts : List String) :
    (quoteArray (text :: texts)).toList =
      '[' :: (quoteChars text.toList ++ itemsTail texts) := by
  have hitems : (joinWith ", " ((text :: texts).map quote)).toList ++ [']'] =
      quoteChars text.toList ++ itemsTail texts := by
    induction texts generalizing text with
    | nil => simp [joinWith, quote, itemsTail]
    | cons next texts ih =>
      have hnext := ih next
      rw [List.map_cons] at hnext
      simp only [List.map_cons, joinWith, String.toList_append, List.append_assoc, hnext]
      simp [quote, itemsTail]
  rw [← hitems]
  simp [quoteArray]

/-- Each item is written with a character at least. -/
theorem length_le_length_itemsTail (texts : List String) :
    texts.length ≤ (itemsTail texts).length := by
  induction texts with
  | nil => exact Nat.zero_le _
  | cons text texts ih =>
    simp only [itemsTail, List.length_cons, List.length_append]
    omega

end MarkupCompiler.Text

/-! ## As JSON -/

namespace MarkupCompiler.Json

open Text

/-- A blank before a value is passed over. -/
theorem readValue_blank (depth : Nat) (text : List Char) :
    readValue depth (' ' :: text) = readValue depth text := by
  cases depth <;> rfl

/-- A blank before an item is passed over. -/
theorem readItems_blank (depth : Nat) (text : List Char) :
    readItems depth (' ' :: text) = readItems depth text := by
  cases depth with
  | zero => rfl
  | succ depth => rw [readItems, readItems, readValue_blank]

/-- The items of an array are read one after the other. -/
theorem readItems_itemsTail (texts : List String) (text : String) (depth : Nat)
    (hdepth : texts.length + 2 ≤ depth) (rest : List Char) :
    readItems depth (quoteChars text.toList ++ (itemsTail texts ++ rest)) =
      some ((text :: texts).map .string, rest) := by
  induction texts generalizing text depth with
  | nil =>
    obtain ⟨depth, rfl⟩ := Nat.exists_eq_add_of_le' hdepth
    show readItems (depth + 1 + 1) _ = _
    rw [readItems, readValue_quoteChars, String.ofList_toList]
    rfl
  | cons next texts ih =>
    obtain ⟨depth, rfl⟩ := Nat.exists_eq_add_of_le' hdepth
    have hitems := ih next (depth + (texts.length + 2)) (Nat.le_add_left _ _)
    rw [List.length_cons]
    show readItems (depth + (texts.length + 1) + 1 + 1) _ = _
    rw [readItems, readValue_quoteChars, String.ofList_toList, Option.bind_eq_bind,
      Option.bind_some]
    show (readItems _ (' ' :: ((quoteChars next.toList ++ itemsTail texts) ++ rest))).bind _ = _
    rw [readItems_blank, List.append_assoc]
    show (readItems (depth + (texts.length + 2)) _).bind _ = _
    rw [hitems]
    rfl

/-- An array literal of texts is read as these texts. -/
theorem parse?_quoteArray (texts : List String) :
    parse? (quoteArray texts).toList = some (.array (texts.map .string)) := by
  cases texts with
  | nil =>
    rw [toList_quoteArray_nil]
    rfl
  | cons text texts =>
    have hlength := length_le_length_itemsTail texts
    have hitems : readItems (2 * (quoteArray (text :: texts)).toList.length)
        (quoteChars text.toList ++ itemsTail texts) = some ((text :: texts).map .string, []) := by
      have hdepth : texts.length + 2 ≤ 2 * (quoteArray (text :: texts)).toList.length := by
        rw [toList_quoteArray_cons, List.length_cons, List.length_append]
        omega
      have hread := readItems_itemsTail texts text _ hdepth []
      rwa [List.append_nil] at hread
    have hvalue : readValue (2 * (quoteArray (text :: texts)).toList.length + 1)
        (quoteArray (text :: texts)).toList = some (.array ((text :: texts).map .string), []) := by
      nth_rewrite 2 [toList_quoteArray_cons]
      show (readItems _ (quoteChars text.toList ++ itemsTail texts)).map _ = _
      rw [hitems]
      rfl
    rw [parse?, hvalue]
    rfl

/-- A string literal is read as its text. -/
theorem parse?_quote (text : String) : parse? (quote text).toList = some (.string text) := by
  have hvalue := readValue_quoteChars (2 * (quoteChars text.toList).length) text.toList []
  rw [List.append_nil, String.ofList_toList] at hvalue
  rw [quote, String.toList_ofList, parse?, hvalue]
  rfl

end MarkupCompiler.Json

/-! ## As an expression -/

namespace MarkupCompiler.Syntax

/-- The text of an item that is a string literal. -/
def Item.string? : Item → Option String
  | .value (.literal _ (.string text)) => some text
  | _ => none

/-- The texts of an array literal whose items are all string literals. -/
def Expr.strings? : Expr → Option (List String)
  | .array _ items => items.mapM Item.string?
  | _ => none

end MarkupCompiler.Syntax

namespace MarkupCompiler.Grammar

open Syntax Text

/-- The operand that a text is as a literal. -/
def quotedLeaf (text : String) : Leaf where
  text := quoteChars text.toList
  kind := .string text
  isOperand := by
    have hscan := scanKind_quoteChars text.toList []
    rw [List.append_nil, String.ofList_toList] at hscan
    rw [isOperand, hscan, beq_self_eq_true, Bool.true_and]
    rfl

/-- The items of an array literal of texts. -/
def quotedTerms : List String → Terms
  | [] => .nil
  | text :: texts => .value (.leaf (quotedLeaf text)) (quotedTerms texts)

/-- No comma stands after the last of several texts. -/
theorem lastComma_quotedTerms (texts : List String) : (quotedTerms texts).lastComma = [] := by
  induction texts with
  | nil => rfl
  | cons text texts ih => exact ih

/-- Texts are written as the array of their literals. -/
theorem text_quotedTerms (texts : List String) :
    (Term.array (quotedTerms texts)).text = (quoteArray texts).toList := by
  have hitems : ∀ text texts, (quotedTerms (text :: texts)).text ++ [']'] =
      quoteChars text.toList ++ itemsTail texts := by
    intro text texts
    induction texts generalizing text with
    | nil => simp [quotedTerms, Terms.text, Term.text, Terms.comma, quotedLeaf, itemsTail]
    | cons next texts ih =>
      have hnext := ih next
      simp only [quotedTerms, Terms.text, Terms.comma, Term.text, quotedLeaf, itemsTail,
        List.append_assoc, List.cons_append, List.nil_append] at hnext ⊢
      rw [hnext]
  rw [Term.text, lastComma_quotedTerms, List.append_nil]
  cases texts with
  | nil =>
    rw [toList_quoteArray_nil]
    rfl
  | cons text texts => rw [hitems, toList_quoteArray_cons]

/-- No parenthesis in an array of texts is tried as the parameters of a function. -/
theorem tryArrow_quotedTerms (texts : List String) : (quotedTerms texts).tryArrow = false := by
  induction texts with
  | nil => rfl
  | cons text texts ih => exact ih

/-- An array of texts is put together as it has to be. -/
theorem isSound_quotedTerms (types : Bool) (texts : List String) :
    (Term.array (quotedTerms texts)).isSound types = true := by
  induction texts with
  | nil => rfl
  | cons text texts ih => exact ih

/-- The term of a quoted string is that string. -/
theorem string?_of_term? {source : List Char} {e : Expr} {text : String}
    (h : e.term? source = some (.leaf (quotedLeaf text))) :
    (Item.value e).string? = some text := by
  have hkind {name : List Char} {kind : TokenKind}
      (h : Leaf.of? name kind = some (quotedLeaf text)) : kind = .string text :=
    (Leaf.eq_of_of? h).2.symm
  unfold Expr.term? at h
  split at h <;>
    simp only [Option.map_eq_some_iff, bind, Option.bind_eq_some_iff, reduceCtorEq] at h
  case h_1 span value =>
    obtain ⟨leaf, hleaf, ⟨⟩⟩ := h
    cases value with
    | null => cases hkind hleaf
    | boolean value => cases value <;> cases hkind hleaf
    | regexp => cases hleaf
    | _ =>
      obtain ⟨_, -, hleaf⟩ := Option.bind_eq_some_iff.1 hleaf
      cases hkind hleaf <;> rfl
  case h_2 | h_3 =>
    obtain ⟨leaf, hleaf, ⟨⟩⟩ := h
    cases hkind hleaf
  all_goals grind

/-- The array that is read holds the texts. -/
theorem strings?_of_term? {source : List Char} {e : Expr} {texts : List String}
    (h : e.term? source = some (.array (quotedTerms texts))) : e.strings? = some texts := by
  have hitems : ∀ (items : List Item) (texts : List String),
      itemsTerms? source items = some (quotedTerms texts) →
      items.mapM Item.string? = some texts := by
    intro items
    induction items with
    | nil =>
      rintro (_ | ⟨text, texts⟩) ⟨⟩
      rfl
    | cons item items ih =>
      intro texts h
      cases item with
      | hole =>
        obtain ⟨ts, -, h⟩ := Option.map_eq_some_iff.1 h
        cases texts <;> cases h
      | value e =>
        obtain ⟨t, ht, h⟩ := Option.bind_eq_some_iff.1 h
        obtain ⟨ts, hts, h⟩ := Option.bind_eq_some_iff.1 h
        cases texts <;> cases h
        rw [List.mapM_cons, string?_of_term? ht, ih _ hts]
        rfl
      | spread e =>
        obtain ⟨t, -, h⟩ := Option.bind_eq_some_iff.1 h
        obtain ⟨ts, -, h⟩ := Option.bind_eq_some_iff.1 h
        cases texts <;> cases h
  -- Only an array has such a term.
  unfold Expr.term? at h
  split at h <;>
    simp only [Option.map_eq_some_iff, bind, Option.bind_eq_some_iff, reduceCtorEq] at h
  case h_4 span items =>
    obtain ⟨ts, hts, ⟨⟩⟩ := h
    exact hitems items texts hts
  all_goals grind

/-- An array literal of texts is a module of one expression, which is an array of these texts. -/
theorem parseModule_quoteArray (dialect : Dialect) (texts : List String) :
    ∃ m e, parseModule dialect (quoteArray texts).toList = .ok m ∧ m.expressions = [e] ∧
      e.strings? = some texts := by
  have hsound := isSound_quotedTerms dialect.types texts
  have harrow : (quotedTerms texts).tryArrow = true →
      NoArrow (Term.array (quotedTerms texts)).text :=
    fun htries => absurd htries (Bool.eq_false_iff.1 (tryArrow_quotedTerms texts))
  have hitem := (termReads (.array (quotedTerms texts)) harrow hsound).item rfl harrow
  obtain ⟨m, e, hparse, hexpressions, hterm⟩ := hitem.parseModule .inl hsound rfl
  rw [text_quotedTerms] at hparse
  exact ⟨m, e, hparse, hexpressions, strings?_of_term? hterm⟩

end MarkupCompiler.Grammar

/-! ## What literals denote -/

namespace MarkupCompiler.Text

open Syntax Grammar

/-- Texts that are written alike as array literals are the same. -/
theorem quoteArray_injective : Function.Injective quoteArray := by
  intro texts texts' h
  have hvalue := Json.parse?_quoteArray texts
  rw [h, Json.parse?_quoteArray, Option.some.injEq, Json.array.injEq] at hvalue
  exact (List.map_injective_iff.2 fun _ _ => Json.string.inj) hvalue.symm

/-- A string literal in double quotes that denotes a text, in JSON as well as in the language. -/
structure Denotes (literal : List Char) (text : String) : Prop where
  /-- A quote stands at either end. -/
  quoted : ∃ inner, literal = '"' :: (inner ++ ['"'])
  /-- No character below the space stands in it as it is. -/
  printable : ∀ c ∈ literal, 32 ≤ c.toNat
  /-- Of the quotes after the first one, the last and no other is not escaped. -/
  closed : ∀ before after, literal = '"' :: (before ++ '"' :: after) →
    (endsInEscape before = false ↔ after = [])
  json : Json.parse? literal = some (.string text)
  /-- The tokenizer reads all of it and nothing more. -/
  token : ∀ rest, scanKind (literal ++ rest) = (.string text, literal.length)

/-- A text is denoted by its literal. -/
theorem denotes_quote (text : String) : Denotes (quote text).toList text where
  quoted := by
    rw [quote, String.toList_ofList]
    exact ⟨_, rfl⟩
  printable c hc := by
    rw [quote, String.toList_ofList] at hc
    exact le_toNat_of_mem_quoteChars hc
  closed before after h := by
    rw [quote, String.toList_ofList] at h
    have hfront : endsInEscape [] = false := rfl
    exact endsInEscape_eq_false_iff hfront (List.cons.inj h).2
  json := Json.parse?_quote text
  token rest := by
    rw [quote, String.toList_ofList, scanKind_quoteChars, String.ofList_toList]

/-- String literals denote their texts, and array literals of them the lists of their texts, both in
JSON and in the language. While templates are only added to a table, two lists are given the same
template only if they are the same. -/
theorem literals_denote_texts :
    (∀ text : String, Denotes (quote text).toList text) ∧
    (∀ texts : List String,
      Json.parse? (quoteArray texts).toList = some (.array (texts.map .string)) ∧
      ∀ dialect, ∃ m e, parseModule dialect (quoteArray texts).toList = .ok m ∧
        m.expressions = [e] ∧ e.strings? = some texts) ∧
    (∀ (table : TemplateTable) (between : List String) (texts texts' : List String),
      (table.intern (quoteArray texts)).1 =
          ((between.foldl (fun table text => (table.intern text).2)
            (table.intern (quoteArray texts)).2).intern (quoteArray texts')).1 ↔
        texts = texts') := by
  refine ⟨denotes_quote, fun texts => ⟨Json.parse?_quoteArray texts, fun dialect =>
    parseModule_quoteArray dialect texts⟩, fun table between texts texts' => ?_⟩
  rw [TemplateTable.intern_fst_eq_iff, quoteArray_injective.eq_iff]

/-- A text that looks like the end of an item, a comma and the beginning of the next one. -/
theorem literals_denote_texts_separator :
    Denotes "\"\\\", \\\"\"".toList "\", \"" ∧
      (({} : TemplateTable).intern (quoteArray ["a\", \"b"])).1 ≠
        ((({} : TemplateTable).intern (quoteArray ["a\", \"b"])).2.intern
          (quoteArray ["a", "b"])).1 := by
  have hquote : quote "\", \"" = "\"\\\", \\\"\"" := by decide
  refine ⟨hquote ▸ literals_denote_texts.1 "\", \"", fun h => ?_⟩
  have hsame := (literals_denote_texts.2.2 {} [] _ _).1 h
  exact absurd hsame (by decide)

end MarkupCompiler.Text
