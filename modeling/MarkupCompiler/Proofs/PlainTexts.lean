import MarkupCompiler.Emit.Server
import MarkupCompiler.Proofs.Pieces
import MarkupCompiler.Proofs.Spelling

/-!
# Texts without dollar signs

A source that has neither dollar signs nor ampersands nor escapes has names and texts without dollar
signs and ampersands. All that is made of them for the code of markup has no dollar signs either:
character references are left as they are where there is no ampersand, and neither quoting nor the
escapes of HTML nor the printing of numbers brings in a dollar sign. So the pieces of a skeleton are
plain (`Element.isPlain_pieces`).
-/

namespace MarkupCompiler

namespace Text

/-- A character does not stand in a text. -/
def Lacks (c : Char) (text : String) : Prop := c ∉ text.toList

instance (c : Char) (text : String) : Decidable (Lacks c text) :=
  inferInstanceAs (Decidable (_ ∉ _))

/-- A source in which no dollar sign comes out of a name or text. -/
structure PlainSource (text : List Char) : Prop where
  dollar : '$' ∉ text
  ampersand : '&' ∉ text
  escape : '\\' ∉ text

variable {c : Char} {text : String}

/-- A text lacks a character if its parts do. -/
@[simp] theorem lacks_append {a b : String} : Lacks c (a ++ b) ↔ Lacks c a ∧ Lacks c b := by
  unfold Lacks
  rw [String.toList_append, List.mem_append, not_or]

/-- A text lacks a character that is not among its own. -/
@[simp] theorem lacks_ofList {chars : List Char} : Lacks c (String.ofList chars) ↔ c ∉ chars := by
  rw [Lacks, String.toList_ofList]

/-- A word that is spelled in a plain source is plain. -/
theorem Spelled.lacks {source : List Char} (h : Spelled source text) (hplain : PlainSource source) :
    Lacks '$' text ∧ Lacks '&' text :=
  ⟨fun hmem => hplain.dollar (h hplain.escape '$' (by decide) hmem),
    fun hmem => hplain.ampersand (h hplain.escape '&' (by decide) hmem)⟩

/-- Joined texts lack what the texts and the separator lack. -/
theorem lacks_joinWith {separator : String} (hseparator : Lacks c separator) {texts : List String}
    (h : ∀ text ∈ texts, Lacks c text) : Lacks c (joinWith separator texts) := by
  induction texts with
  | nil => exact List.not_mem_nil
  | cons text texts ih =>
    obtain ⟨hfirst, hrest⟩ := List.forall_mem_cons.1 h
    cases texts with
    | nil => exact hfirst
    | cons next texts => exact lacks_append.2 ⟨lacks_append.2 ⟨hfirst, hseparator⟩, ih hrest⟩

/-! ## Character references -/

/-- A text without ampersands is read as it is. -/
theorem decode_eq (h : Lacks '&' text) : decode text = text := by
  have hchars : ∀ chars : List Char, '&' ∉ chars → decodeFrom 0 chars = chars := by
    intro chars hchars
    induction chars with
    | nil => rfl
    | cons c chars ih =>
      rw [List.mem_cons, not_or] at hchars
      have hc : (c == '&') = false := beq_eq_false_iff_ne.2 (Ne.symm hchars.1)
      rw [decodeFrom, hc, ih hchars.2]
      rfl
  rw [decode, hchars text.toList h, String.ofList_toList]

/-! ## Text between tags -/

/-- The characters of the lines of a text are those of the text. -/
theorem mem_of_mem_splitLines {chars line : List Char} (hline : line ∈ splitLines chars) :
    line ⊆ chars := by
  induction chars generalizing line with
  | nil =>
    rw [splitLines, List.mem_singleton] at hline
    rw [hline]
    exact List.nil_subset _
  | cons c chars ih =>
    unfold splitLines at hline
    split at hline
    · rcases List.mem_cons.1 hline with rfl | hline
      · exact List.nil_subset _
      · exact List.subset_cons_of_subset c (ih hline)
    · split at hline
      · rename_i first lines hlines
        rcases List.mem_cons.1 hline with rfl | hline
        · exact List.cons_subset_cons c (ih (hlines ▸ (.head _)))
        · exact List.subset_cons_of_subset c (ih (hlines ▸ List.mem_cons_of_mem first hline))
      · rw [List.mem_singleton] at hline
        rw [hline]
        exact List.cons_subset_cons c (List.nil_subset _)

/-- What is left of a line are its characters, with spaces for tabs. -/
theorem mem_of_mem_trimLine {isFirst isLast : Bool} {line : List Char}
    (h : c ∈ trimLine isFirst isLast line) : c ∈ line ∨ c = ' ' := by
  have hmap : c ∈ line.map (fun d => if d == '\t' then ' ' else d) := by
    unfold trimLine at h
    dsimp only at h
    -- Cutting at either end leaves characters that were there.
    have hfront : c ∈ (if isFirst then line.map (fun d => if d == '\t' then ' ' else d)
        else (line.map fun d => if d == '\t' then ' ' else d).dropWhile (· == ' ')) := by
      split at h
      · exact h
      · exact List.mem_reverse.1 ((List.dropWhile_sublist _).mem (List.mem_reverse.1 h))
    split at hfront
    · exact hfront
    · exact (List.dropWhile_sublist _).mem hfront
  obtain ⟨d, hd, rfl⟩ := List.mem_map.1 hmap
  split
  · exact .inr rfl
  · exact .inl hd

/-- What is left of lines are their characters and spaces. -/
theorem mem_of_mem_joinLines {isFirst : Bool} {lines : List (List Char)}
    (h : c ∈ joinLines isFirst lines) : (∃ line ∈ lines, c ∈ line) ∨ c = ' ' := by
  induction lines generalizing isFirst with
  | nil => cases h
  | cons line lines ih =>
    rw [joinLines, List.mem_append, List.mem_append] at h
    rcases h with (h | h) | h
    · exact (mem_of_mem_trimLine h).imp_left fun hc => ⟨line, (.head _), hc⟩
    · split at h
      · exact .inr (List.mem_singleton.1 h)
      · cases h
    · refine (ih h).imp_left ?_
      rintro ⟨other, hother, hc⟩
      exact ⟨other, List.mem_cons_of_mem line hother, hc⟩

/-- The content of a text between tags has its characters, spaces and line feeds. -/
theorem lacks_clean (hspace : c ≠ ' ') (hfeed : c ≠ '\n') (h : Lacks c text) :
    Lacks c (clean text) := by
  rw [clean, lacks_ofList]
  intro hmem
  rcases mem_of_mem_joinLines hmem with ⟨line, hline, hc⟩ | hc
  · rcases Syntax.mem_of_mem_unifyLineEnds c (mem_of_mem_splitLines hline hc) with hc | hc
    · exact h hc
    · exact hfeed hc
  · exact hspace hc

/-! ## Quoting and escaping -/

/-- A dollar sign comes out of a text of which each character is written anew only if it was
there. -/
theorem lacks_flatMap {write : Char → List Char} (hwrite : ∀ c, '$' ∈ write c → c = '$')
    (h : Lacks '$' text) : '$' ∉ text.toList.flatMap write := by
  intro hmem
  obtain ⟨c, hc, hdollar⟩ := List.mem_flatMap.1 hmem
  exact h (hwrite c hdollar ▸ hc)

/-- Only a dollar is quoted with a dollar. -/
theorem eq_of_mem_quoteChar (h : '$' ∈ quoteChar c) : c = '$' := by
  have hdigits : ∀ n < 16, '$' ≠ hexDigit n := by decide
  revert h
  fun_cases quoteChar c with
  | case8 _ _ _ _ _ _ _ hsmall =>
    -- A character below the space is written with two digits.
    have hhigh := hdigits (c.toNat / 16) (by omega)
    have hlow := hdigits (c.toNat % 16) (by omega)
    simp [hhigh, hlow]
  | case9 =>
    intro h
    exact (List.mem_singleton.1 h).symm
  | _ => simp

/-- A quoted text has the dollars of the text. -/
@[simp] theorem lacks_quote (h : Lacks '$' text) : Lacks '$' (quote text) := by
  rw [quote, lacks_ofList, quoteChars, List.mem_cons, List.mem_append]
  simp [lacks_flatMap (fun _ => eq_of_mem_quoteChar) h]

/-- So has a text that is quoted where it has to be. -/
theorem lacks_quoteUnless {isPlain : List Char → Bool} (h : Lacks '$' text) :
    Lacks '$' (quoteUnless isPlain text) := by
  unfold quoteUnless
  split
  · exact h
  · exact lacks_quote h

/-- So has a list of quoted texts. -/
theorem lacks_quoteArray {texts : List String} (h : ∀ text ∈ texts, Lacks '$' text) :
    Lacks '$' (quoteArray texts) := by
  have hjoined : Lacks '$' (joinWith ", " (texts.map quote)) := by
    refine lacks_joinWith (by decide) fun quoted hquoted => ?_
    obtain ⟨text, htext, rfl⟩ := List.mem_map.1 hquoted
    exact lacks_quote (h text htext)
  unfold quoteArray
  simp +decide [hjoined]

/-- Text that is escaped for HTML gets no dollar. -/
theorem lacks_escapeText (h : Lacks '$' text) : Lacks '$' (escapeText text) := by
  rw [escapeText_eq, lacks_ofList]
  refine lacks_flatMap (fun c => ?_) h
  fun_cases escapeTextChar c with
  | case4 => exact fun hc => (List.mem_singleton.1 hc).symm
  | _ => simp

/-- Nor does the value of an attribute. -/
theorem lacks_escapeAttribute (h : Lacks '$' text) : Lacks '$' (escapeAttribute text) := by
  rw [escapeAttribute_eq, lacks_ofList]
  refine lacks_flatMap (fun c => ?_) h
  fun_cases escapeAttributeChar c with
  | case4 => exact fun hc => (List.mem_singleton.1 hc).symm
  | _ => simp

/-! ## Numbers -/

/-- No digit is a dollar. -/
theorem not_mem_toDigits (n : Nat) : '$' ∉ Nat.toDigits 10 n := fun hmem =>
  absurd (Nat.isDigit_of_mem_toDigits (by decide) (by decide) hmem) (by decide)

/-- A number has no dollar. -/
@[simp] theorem lacks_repr (n : Nat) : Lacks '$' n.repr := by
  rw [Lacks, Nat.toList_repr]
  exact not_mem_toDigits n

/-- The digits of a number, or some of them, have no dollar sign. -/
theorem not_mem_of_subset_decimalDigits {chars : List Char} {n : Nat}
    (h : chars ⊆ Binary64.decimalDigits n) : '$' ∉ chars := fun hmem => not_mem_toDigits n (h hmem)

/-- Nor has a number with an exponent. -/
theorem not_mem_printScientific (d : Binary64.Decimal) : '$' ∉ Binary64.printScientific d := by
  have hdigits := fun n => not_mem_of_subset_decimalDigits
    (List.Subset.refl (Binary64.decimalDigits n))
  have hfirst := not_mem_of_subset_decimalDigits
    (List.take_subset 1 (Binary64.decimalDigits d.digits))
  have hfraction := not_mem_of_subset_decimalDigits
    (List.tail_sublist (Binary64.decimalDigits d.digits)).subset
  unfold Binary64.printScientific
  dsimp only
  split <;> simp [hdigits, hfirst, hfraction]

/-- Nor has one with a point. -/
theorem not_mem_printPositional (d : Binary64.Decimal) : '$' ∉ Binary64.printPositional d := by
  have hdigits := not_mem_of_subset_decimalDigits
    (List.Subset.refl (Binary64.decimalDigits d.digits))
  have hfront := fun n => not_mem_of_subset_decimalDigits
    (List.take_subset n (Binary64.decimalDigits d.digits))
  have hback := fun n => not_mem_of_subset_decimalDigits
    (List.drop_subset n (Binary64.decimalDigits d.digits))
  unfold Binary64.printPositional
  dsimp only
  split
  · simp [hdigits]
  · split
    · simp [hfront, hback]
    · simp [hdigits]

/-- No number is printed with a dollar. -/
theorem lacks_print (value : Binary64) : Lacks '$' value.print := by
  have hmagnitude : ∀ mantissa exponent, '$' ∉ Binary64.printMagnitude mantissa exponent := by
    intro mantissa exponent
    unfold Binary64.printMagnitude
    dsimp only
    split
    · exact not_mem_printScientific _
    · split
      · exact not_mem_toDigits _
      · exact not_mem_printPositional _
  cases value with
  | nan => decide
  | infinite negative => cases negative <;> decide
  | finite negative mantissa exponent =>
    rw [Binary64.print]
    split
    · decide
    · rw [lacks_ofList, List.mem_append]
      cases negative <;> simp [hmagnitude]

end Text

namespace Syntax

open Text

/-! ## Names and operators -/

/-- No unary operator has a dollar. -/
@[simp] theorem UnaryOp.lacks_text (op : UnaryOp) : Lacks '$' op.text := by cases op <;> decide

/-- No operator that updates has one. -/
@[simp] theorem UpdateOp.lacks_text (op : UpdateOp) : Lacks '$' op.text := by cases op <;> decide

/-- No binary operator has one. -/
@[simp] theorem BinaryOp.lacks_text (op : BinaryOp) : Lacks '$' op.text := by cases op <;> decide

/-- No operator that assigns has one. -/
@[simp] theorem AssignOp.lacks_text (op : AssignOp) : Lacks '$' op.text := by
  cases op with
  | plain => decide
  | combined op => exact lacks_append.2 ⟨op.lacks_text, by decide⟩

/-- The name of an attribute gets no dollar in HTML. -/
theorem lacks_htmlName {name : String} (h : Lacks '$' name) : Lacks '$' (htmlName name) := by
  unfold htmlName
  split
  · decide
  · split
    · decide
    · exact h

/-- A letter in small is no dollar sign. -/
theorem eq_of_toLower_eq {c : Char} (h : c.toLower = '$') : c = '$' := by
  unfold Char.toLower at h
  split at h
  · rename_i hupper
    -- Thirty-two above a capital there is a letter.
    have hval : (c.val + 32).toNat = 36 := congrArg (fun d => d.val.toNat) h
    have hlow : 65 ≤ c.val.toNat := UInt32.le_iff_toNat_le.1 hupper.1
    have hhigh : c.val.toNat ≤ 90 := UInt32.le_iff_toNat_le.1 hupper.2
    rw [UInt32.toNat_add] at hval
    change (c.val.toNat + 32) % 2 ^ 32 = 36 at hval
    omega
  · exact h

/-- The name of an event has no dollar of its own. -/
theorem lacks_eventName {name event : String} (h : Lacks '$' name)
    (hevent : eventName? name = some event) : Lacks '$' event := by
  unfold eventName? at hevent
  split at hevent
  · rename_i c rest hname
    have hchars : '$' ∉ c :: rest := fun hmem =>
      h (hname ▸ List.mem_cons_of_mem _ (List.mem_cons_of_mem _ hmem))
    split at hevent
    · split at hevent
      · cases hevent
      · cases hevent
        exact lacks_ofList.2 fun hmem => hchars (List.mem_cons_of_mem c hmem)
    · split at hevent
      · cases hevent
        rw [lacks_ofList, List.mem_map]
        rintro ⟨d, hd, hlower⟩
        exact hchars (eq_of_toLower_eq hlower ▸ hd)
      · cases hevent
  · cases hevent

section

variable {source : List Char} (hplain : PlainSource source)

include hplain

/-- The name of a member has no dollar in a plain source. -/
theorem MemberName.lacks_text {name : MemberName} (h : name.IsSpelled source) :
    Lacks '$' name.text := by
  cases name with
  | plain name => exact (Spelled.lacks h hplain).1
  | hidden name => exact lacks_append.2 ⟨by decide, (Spelled.lacks h hplain).1⟩

/-- Nor has the text of a tag. -/
theorem TagName.lacks_text {tag : TagName} (h : tag.IsSpelled source) : Lacks '$' tag.text := by
  cases tag with
  | plain name => exact (Spelled.lacks h hplain).1
  | namespaced space name =>
    obtain ⟨hspace, hname⟩ := h
    have hfront := lacks_append.2 ⟨(hspace.lacks hplain).1, (by decide : Lacks '$' ":")⟩
    exact lacks_append.2 ⟨hfront, (hname.lacks hplain).1⟩
  | path object members =>
    obtain ⟨hobject, hmembers⟩ := h
    refine lacks_joinWith (by decide) (List.forall_mem_cons.2 ⟨(hobject.lacks hplain).1, ?_⟩)
    exact fun member hmember => ((hmembers member hmember).lacks hplain).1
  | self => decide

/-- Text between tags is plain when it is read. -/
theorem lacks_decode_clean {raw : String} (h : Spelled source raw) :
    Lacks '$' (decode (clean raw)) := by
  obtain ⟨hdollar, hampersand⟩ := h.lacks hplain
  rw [decode_eq (lacks_clean (by decide) (by decide) hampersand)]
  exact lacks_clean (by decide) (by decide) hdollar

/-- The text of an attribute is plain when it is read. -/
theorem lacks_decode {raw : String} (h : Spelled source raw) : Lacks '$' (decode raw) := by
  obtain ⟨hdollar, hampersand⟩ := h.lacks hplain
  rw [decode_eq hampersand]
  exact hdollar

/-! ## Constants -/

/-- Nor has the text of a template literal without values. -/
theorem lacks_quasisText {quasis : List Quasi} (h : ∀ quasi ∈ quasis, quasi.IsSpelled source) :
    Lacks '$' (quasisText quasis) := by
  induction quasis with
  | nil => decide
  | cons quasi quasis ih =>
    obtain ⟨⟨hraw, hcooked⟩, hrest⟩ := List.forall_mem_cons.1 h
    refine lacks_append.2 ⟨?_, ih hrest⟩
    cases hquasi : quasi.cooked with
    | none => exact (hraw.lacks hplain).1
    | some cooked => exact ((hcooked cooked hquasi).lacks hplain).1

/-- The text of a literal is plain. -/
theorem Expr.lacks_constant {e : Expr} (h : e.IsSpelled source) {text : String}
    (he : e.constant? = some (.text text)) : Lacks '$' text := by
  fun_induction Expr.constant? e with
  | case1 span value =>
    cases he
    exact (Spelled.lacks h hplain).1
  | case7 span quasis =>
    cases he
    exact lacks_quasisText hplain h.1
  | case8 span inner ih => exact ih h he
  | _ => simp_all

/-- The text of an attribute with a constant value is plain. -/
theorem AttributeValue.lacks_constant {value : AttributeValue} (h : value.IsSpelled source)
    {text : String} (hvalue : value.constant? = some (.text text)) : Lacks '$' text := by
  cases value with
  | bare => cases hvalue
  | text raw =>
    cases hvalue
    exact lacks_decode hplain h
  | expr e => exact e.lacks_constant hplain h hvalue
  | empty => cases hvalue
  | markup m => cases hvalue

end

/-! ## Pieces -/

/-- The names and texts of what fills a slot are spelled in a source. -/
def PartValue.IsSpelled (source : List Char) : PartValue → Prop
  | .expr value => value.IsSpelled source
  | .spread value => value.IsSpelled source
  | .markup m => m.IsSpelled source

/-- A piece of a skeleton is plain: HTML without dollar signs, or a slot with a name without them
and a value that is spelled in the source. -/
def Piece.IsPlain (source : List Char) : Piece → Prop
  | .html text => Lacks '$' text
  | .slot part =>
    (∀ name, part.place = .inTag (some name) → Lacks '$' name) ∧ part.value.IsSpelled source

variable {source : List Char}

/-- The slot of a child has no name. -/
theorem isPlain_inContent {path : List Nat} {marker : Nat} {value : PartValue}
    (h : value.IsSpelled source) :
    ∀ piece ∈ [Piece.slot ⟨path, .inContent marker, value⟩], piece.IsPlain source :=
  List.forall_mem_singleton.2 ⟨nofun, h⟩

/-- The slot of an attribute has its name. -/
theorem isPlain_inTag {path : List Nat} {name : String} {value : PartValue} (hname : Lacks '$' name)
    (h : value.IsSpelled source) :
    ∀ piece ∈ [Piece.slot ⟨path, .inTag (some name), value⟩], piece.IsPlain source := by
  refine List.forall_mem_singleton.2 ⟨fun other hother => ?_, h⟩
  cases hother
  exact hname

/-- The pieces of a plain constant are plain. -/
theorem isPlain_constantPieces {name : String} (hname : Lacks '$' name) {value : Constant}
    (h : ∀ text, value = .text text → Lacks '$' text) :
    ∀ piece ∈ constantPieces name value, piece.IsPlain source := by
  have hhtml := lacks_htmlName hname
  have hquoted : ∀ text, Lacks '$' text → ∀ piece ∈
      [Piece.html (" " ++ htmlName name ++ "=\"" ++ escapeAttribute text ++ "\"")],
      piece.IsPlain source := by
    intro text htext
    refine List.forall_mem_singleton.2 ?_
    have hvalue := lacks_escapeAttribute htext
    simp +decide [Piece.IsPlain, hhtml, hvalue]
  cases value with
  | text value => exact hquoted value (h value rfl)
  | number value => exact hquoted value.print (lacks_print value)
  | boolean value =>
    cases value with
    | true => exact List.forall_mem_singleton.2 (lacks_append.2 ⟨by decide, hhtml⟩)
    | false => exact nofun
  | nullish => exact nofun

/-- The pieces of an attribute are plain. -/
theorem Attribute.isPlain_pieces (hplain : PlainSource source) (path : List Nat) {a : Attribute}
    (h : a.IsSpelled source) : ∀ piece ∈ a.pieces path, piece.IsPlain source := by
  cases a with
  | spread value => exact List.forall_mem_singleton.2 ⟨nofun, h⟩
  | named name value =>
    obtain ⟨hname, hvalue⟩ := h
    have hname := (hname.lacks hplain).1
    unfold Attribute.pieces
    dsimp only
    split
    · exact nofun
    · split
      · rename_i constant hconstant
        refine isPlain_constantPieces hname fun text htext => ?_
        exact AttributeValue.lacks_constant hplain hvalue
          (hconstant.trans (congrArg some htext))
      · exact isPlain_inTag hname hvalue
      · exact isPlain_inTag hname hvalue
      · exact nofun

/-- The pieces of text are plain. -/
theorem isPlain_textPieces (hplain : PlainSource source) {raw : String} (h : Spelled source raw) :
    ∀ piece ∈ textPieces raw, piece.IsPlain source := by
  unfold textPieces
  dsimp only
  split
  · exact nofun
  · exact List.forall_mem_singleton.2 (lacks_escapeText (lacks_decode_clean hplain h))

mutual

/-- The pieces of an element of a plain source are plain. -/
theorem Element.isPlain_pieces (hplain : PlainSource source) (path : List Nat) (next : Nat) :
    ∀ e : Element, e.IsSpelled source → ∀ piece ∈ e.pieces path next, piece.IsPlain source
  | .mk _ tag attributes children, h => by
    obtain ⟨htag, hattributes, hchildren⟩ := h
    have htag := tag.lacks_text hplain htag
    have hchildren := isPlain_childrenPieces hplain path 0 next children hchildren
    have hinTag : ∀ piece ∈ attributes.flatMap (Attribute.pieces path), piece.IsPlain source :=
      List.forall_mem_flatMap.2 fun a ha =>
        a.isPlain_pieces hplain path (attributesSpelled_iff.1 hattributes a ha)
    have hclose : Lacks '$' ("</" ++ tag.text ++ ">") := by simp +decide [htag]
    rw [Element.pieces, List.forall_mem_cons, List.forall_mem_append, List.forall_mem_cons]
    refine ⟨lacks_append.2 ⟨by decide, htag⟩, hinTag, (by decide : Lacks '$' ">"), ?_⟩
    split
    · exact nofun
    · exact List.forall_mem_append.2 ⟨hchildren, List.forall_mem_singleton.2 hclose⟩

/-- The pieces of markup are plain. -/
theorem Markup.isPlain_pieces (hplain : PlainSource source) (path : List Nat) (index next : Nat) :
    ∀ m : Markup, m.IsSpelled source → ∀ piece ∈ m.pieces path index next, piece.IsPlain source
  | .element e, h => by
    rw [Markup.pieces]
    split
    · exact isPlain_inContent h
    · exact e.isPlain_pieces hplain (path ++ [index]) next h
  | .fragment _ _, h => isPlain_inContent h

/-- The pieces of a child are plain. -/
theorem Child.isPlain_pieces (hplain : PlainSource source) (path : List Nat) (index next : Nat) :
    ∀ child : Child, child.IsSpelled source →
      ∀ piece ∈ child.pieces path index next, piece.IsPlain source
  | .text _, h => isPlain_textPieces hplain h
  | .markup m, h => m.isPlain_pieces hplain path index next h
  | .expr _, h => isPlain_inContent h
  | .empty, _ => nofun
  | .spread _, h => isPlain_inContent h

/-- The pieces of children are plain. -/
theorem isPlain_childrenPieces (hplain : PlainSource source) (path : List Nat)
    (index next : Nat) :
    ∀ children : List Child, childrenSpelled source children →
      ∀ piece ∈ childrenPieces path index next children, piece.IsPlain source
  | [], _ => nofun
  | child :: children, h => by
    obtain ⟨hchild, hrest⟩ := h
    rw [childrenPieces_cons]
    exact List.forall_mem_append.2 ⟨child.isPlain_pieces hplain path index next hchild,
      isPlain_childrenPieces hplain _ _ _ children hrest⟩

end

/-- Joining neighbouring HTML keeps pieces plain. -/
theorem isPlain_joinHtml {pieces : List Piece} (h : ∀ piece ∈ pieces, piece.IsPlain source) :
    ∀ piece ∈ joinHtml pieces, piece.IsPlain source := by
  induction pieces with
  | nil => exact h
  | cons piece pieces ih =>
    obtain ⟨hpiece, hrest⟩ := List.forall_mem_cons.1 h
    have hjoined := ih hrest
    cases piece with
    | html text =>
      unfold joinHtml
      split
      · rename_i rest joined heq
        rw [heq, List.forall_mem_cons] at hjoined
        exact List.forall_mem_cons.2 ⟨lacks_append.2 ⟨hpiece, hjoined.1⟩, hjoined.2⟩
      · exact List.forall_mem_cons.2 ⟨hpiece, hjoined⟩
    | slot part => exact List.forall_mem_cons.2 ⟨hpiece, hjoined⟩

/-- The pieces of the skeleton of an element are plain. -/
theorem Element.isPlain_skeleton (hplain : PlainSource source) {e : Element}
    (h : e.IsSpelled source) (next : Nat) :
    ∀ piece ∈ (e.skeleton next).pieces, piece.IsPlain source := by
  rw [e.skeleton_pieces]
  exact isPlain_joinHtml (e.isPlain_pieces hplain [] next h)

/-- What a plain piece leaves in a template has no dollar sign. -/
theorem Piece.IsPlain.lacks_templateHtml {piece : Piece} (h : piece.IsPlain source) :
    Lacks '$' piece.templateHtml := by
  rcases piece with text | ⟨path, name | marker, value⟩
  · exact h
  · exact (by decide : Lacks '$' "")
  · simp +decide [Piece.templateHtml, markerComment, markerText]

/-- The HTML of the template of an element has no dollar sign. -/
theorem Element.lacks_templateHtml (hplain : PlainSource source) {e : Element}
    (h : e.IsSpelled source) (next : Nat) : Lacks '$' (e.skeleton next).templateHtml := by
  unfold Lacks Skeleton.templateHtml
  rw [String.toList_join, List.mem_flatMap]
  rintro ⟨html, hhtml, hmem⟩
  obtain ⟨piece, hpiece, rfl⟩ := List.mem_map.1 hhtml
  exact (e.isPlain_skeleton hplain h next piece hpiece).lacks_templateHtml hmem

end Syntax

namespace Emitters

open Syntax Text

/-- Plain text in front of plain chunks leaves them plain. -/
theorem lacks_prependChunk {text : String} (h : Lacks '$' text) {chunks : List String}
    (hchunks : ∀ chunk ∈ chunks, Lacks '$' chunk) :
    ∀ chunk ∈ prependChunk text chunks, Lacks '$' chunk := by
  cases chunks with
  | nil => exact List.forall_mem_singleton.2 h
  | cons chunk chunks =>
    obtain ⟨hchunk, hrest⟩ := List.forall_mem_cons.1 hchunks
    exact List.forall_mem_cons.2 ⟨lacks_append.2 ⟨h, hchunk⟩, hrest⟩

/-- The chunks of plain pieces have no dollar sign. -/
theorem lacks_chunks {source : List Char} {pieces : List (Piece × Option String)}
    (h : ∀ entry ∈ pieces, entry.1.IsPlain source) : ∀ chunk ∈ chunks pieces, Lacks '$' chunk := by
  induction pieces with
  | nil => exact List.forall_mem_singleton.2 (by decide)
  | cons entry pieces ih =>
    obtain ⟨hentry, hrest⟩ := List.forall_mem_cons.1 h
    have hchunks := ih hrest
    rcases entry with ⟨text | part, _ | value⟩
    · exact lacks_prependChunk hentry hchunks
    · exact List.forall_mem_cons.2
        ⟨by decide, lacks_prependChunk hentry.lacks_templateHtml hchunks⟩
    · exact hchunks
    · exact List.forall_mem_cons.2
        ⟨by decide, lacks_prependChunk hentry.lacks_templateHtml hchunks⟩

end Emitters

end MarkupCompiler
