import MarkupCompiler.Proofs.CursorPlace
import MarkupCompiler.Proofs.Scanning

/-!
# Braces and the tokens that begin with them

A token that has just been read (`Cursor.Fresh`) is an opening brace exactly if the text begins with
one there (`Cursor.Fresh.braceAt`): no word, number, string or other punctuator does. Words and
punctuators take up some text (`Cursor.Fresh.lt`), and what a word stands for does not begin with a
brace either, however the word is written (`Cursor.Fresh.word`).
-/

namespace MarkupCompiler

open Syntax Grammar Text

/-! ## Braces in a text -/

namespace Text

/-- Whether a text begins with an opening brace. -/
def opensBrace (text : List Char) : Bool := text.head? == some '\x7b'

/-- Whether an opening brace stands at an offset of a text. -/
def braceAt (text : List Char) (offset : Nat) : Bool :=
  match cutAt? offset text with
  | some (_, after) => opensBrace after
  | none => false

/-- What is left of a text at an offset begins with what stands there. -/
theorem IsLeft.braceAt {text rest : List Char} {offset : Nat} (h : IsLeft text offset rest)
    (hne : rest ≠ []) : braceAt text offset = opensBrace rest := by
  rcases h with rfl | ⟨before, rfl, hoffset⟩
  · exact absurd rfl hne
  · rw [Text.braceAt, ← hoffset, cutAt?_append]

end Text

namespace Syntax

variable {text : List Char} {width : Nat}

/-- The characters of a name that is well written can stand in a name. -/
theorem isNamePart_of_mem_scanName {skip : Nat} (hvalid : (scanName skip text).valid = true) :
    ∀ c ∈ (scanName skip text).name, isNamePart c = true := by
  fun_induction scanName skip text with
  | case1 => exact List.forall_mem_nil _
  | case2 skip c rest scan ih => exact ih hvalid
  | case3 c rest hpart scan ih => exact List.forall_mem_cons.2 ⟨hpart, ih hvalid⟩
  | case4 c hpart hslash tail code width hcode ih =>
    rw [Bool.and_eq_true] at hvalid
    exact List.forall_mem_cons.2 ⟨hvalid.2, ih hvalid.1⟩
  | case5 | case6 | case7 => exact List.forall_mem_nil _

/-- A name takes at least one character. -/
theorem written_scanName_pos {c : Char} {rest : List Char}
    (hc : (isNameStart c || c == '\\') = true) : 0 < (scanName 0 (c :: rest)).written := by
  unfold scanName
  split
  · exact Nat.succ_pos _
  · rename_i hpart
    have hslash : (c == '\\') = true := by
      cases hstart : isNameStart c with
      | false => rwa [hstart, Bool.false_or] at hc
      | true => exact absurd (isNamePart_of_isNameStart hstart) hpart
    rw [if_pos hslash]
    split
    · split <;> exact Nat.succ_pos _
    · exact Nat.succ_pos _

/-- A text begins with a brace exactly if its first token is one. -/
theorem opensBrace_of_scanKind {kind : TokenKind} (h : scanKind text = (kind, width)) :
    opensBrace text = (kind == .punct .lbrace) := by
  cases hkind : kind == .punct .lbrace with
  | true =>
    obtain rfl := eq_of_beq hkind
    rw [eq_append_of_scanKind h]
    rfl
  | false =>
    cases text with
    | nil => rfl
    | cons c rest =>
      by_cases hc : c = '\x7b'
      · subst hc
        have hscan : scanKind ('\x7b' :: rest) = (.punct .lbrace, 1) := rfl
        rw [hscan] at h
        cases h
        cases hkind
      · exact beq_false_of_ne fun heq => hc (Option.some.inj heq)

/-- A token that is read as a word is a name that is well written. -/
theorem exists_scanName_of_scanKind {name : String} {keyword : Option Keyword}
    (h : scanKind text = (.word name keyword, width)) :
    ∃ c rest, text = c :: rest ∧ (isNameStart c || c == '\\') = true ∧
      (scanName 0 text).valid = true ∧ name = String.ofList (scanName 0 text).name ∧
        width = (scanName 0 text).written := by
  cases text with
  | nil => cases h
  | cons c rest =>
    have hc := begins_name_of_scanKind h
    rw [← beq_iff_eq (a := c), ← Bool.or_eq_true] at hc
    unfold scanKind at h
    dsimp only at h
    rw [if_pos hc] at h
    split at h
    · rename_i hvalid
      cases h
      exact ⟨c, rest, rfl, hc, hvalid, rfl, rfl⟩
    · cases h

/-- A word does not begin with a brace. -/
theorem opensBrace_word {name : String} {keyword : Option Keyword}
    (h : scanKind text = (.word name keyword, width)) : opensBrace name.toList = false := by
  obtain ⟨c, rest, rfl, -, hvalid, rfl, -⟩ := exists_scanName_of_scanKind h
  rw [String.toList_ofList]
  have hparts := isNamePart_of_mem_scanName hvalid
  cases hname : (scanName 0 (c :: rest)).name with
  | nil => rfl
  | cons d name =>
    have hd := hparts d (hname ▸ (.head _))
    refine beq_false_of_ne fun heq => ?_
    obtain rfl : d = '\x7b' := Option.some.inj heq
    exact absurd hd (by decide)

/-- Whether a token is a word or a punctuator. -/
def TokenKind.isWordOrPunct : TokenKind → Bool
  | .word _ _ | .punct _ => true
  | _ => false

/-- Punctuators count. -/
@[simp] theorem TokenKind.isWordOrPunct_punct (p : Punct) : (punct p).isWordOrPunct = true := rfl

/-- Whether a function can begin with a token. -/
def TokenKind.isHead : TokenKind → Bool
  | .word _ _ | .punct .lparen | .punct .lt => true
  | _ => false

/-- A function can begin with a word. -/
@[simp] theorem TokenKind.isHead_word (name : String) (keyword : Option Keyword) :
    (word name keyword).isHead = true := rfl

/-- A function can begin with a parenthesis or an angle bracket. -/
@[simp] theorem TokenKind.isHead_punct :
    (punct .lparen).isHead = true ∧ (punct .lt).isHead = true := ⟨rfl, rfl⟩

/-- Whether a token is known to be something else than an opening brace. -/
def TokenKind.isApart : TokenKind → Bool
  | .punct .lbrace | .fault _ | .finish => false
  | _ => true

/-- Words and punctuators take up some text. -/
theorem byteLength_pos_of_scanKind {kind : TokenKind} (h : scanKind text = (kind, width))
    (hkind : kind.isWordOrPunct = true) : 0 < byteLength (text.take width) := by
  cases text with
  | nil =>
    cases h
    cases hkind
  | cons c rest =>
    suffices hpos : 0 < width by
      obtain ⟨width, rfl⟩ := Nat.exists_eq_succ_of_ne_zero (Nat.ne_of_gt hpos)
      rw [List.take_succ_cons, byteLength]
      have hsize := c.utf8Size_pos
      omega
    cases kind with
    | word name keyword =>
      obtain ⟨_, _, heq, hc, -, -, rfl⟩ := exists_scanName_of_scanKind h
      cases heq
      exact written_scanName_pos hc
    | punct p =>
      refine Nat.pos_of_ne_zero fun hzero => ?_
      have htext := eq_append_of_scanKind h
      rw [hzero, List.drop_zero] at htext
      have hlength := congrArg List.length htext
      rw [List.length_append] at hlength
      have hp : 0 < p.text.toList.length := by cases p <;> decide
      omega
    | _ => cases hkind

end Syntax

namespace Grammar

/-! ## Tokens at a cursor -/

/-- The token of a cursor is the first one of the text that the cursor holds, unless it is a
fault. -/
def Cursor.Fresh (cursor : Cursor) : Prop :=
  (∃ fault, cursor.token.kind = .fault fault) ∨
    ∃ width, scanKind cursor.here = (cursor.token.kind, width) ∧
      cursor.token.span.stop = cursor.token.span.start + byteLength (cursor.here.take width)

variable {cursor : Cursor}

/-- A cursor that is moved holds the token that it is moved to. -/
theorem Cursor.fresh_moveTo (cursor : Cursor) (offset : Nat) (text : List Char) :
    (cursor.moveTo offset text).Fresh := by
  unfold Cursor.moveTo readToken Cursor.Fresh
  dsimp only
  split
  · exact .inl ⟨_, rfl⟩
  · exact .inr ⟨_, rfl, rfl⟩

/-- Where a cursor goes on, it holds the next token. -/
theorem Cursor.fresh_next (cursor : Cursor) : cursor.next.Fresh := cursor.fresh_moveTo _ _

variable {text : List Char}

/-- No brace stands where a tag opens. -/
theorem OpensTag.braceAt {start : Nat} (h : OpensTag text start) : braceAt text start = false := by
  obtain ⟨before, c, rest, htext, hoffset, -⟩ := h
  have hleft : IsLeft text start ('<' :: c :: rest) := .inr ⟨before, htext, hoffset⟩
  rw [hleft.braceAt (List.cons_ne_nil _ _)]
  rfl

/-- An angle bracket is no brace. -/
theorem Cursor.On.braceAt_lt (hon : cursor.On text) (hkind : cursor.token.kind = .punct .lt) :
    Text.braceAt text cursor.token.span.start = false := by
  have hhere : cursor.here = '<' :: cursor.after := hon.punct .lt hkind
  have hleft : IsLeft text cursor.token.span.start ('<' :: cursor.after) := hhere ▸ hon.here
  rw [hleft.braceAt (List.cons_ne_nil _ _)]
  rfl

variable (hfresh : cursor.Fresh) (hon : cursor.On text)
include hfresh

/-- A word at a cursor does not begin with a brace. -/
theorem Cursor.Fresh.word {name : String} {keyword : Option Keyword}
    (hkind : cursor.token.kind = .word name keyword) : opensBrace name.toList = false := by
  rcases hfresh with ⟨fault, hfault⟩ | ⟨width, hscan, -⟩
  · cases hfault.symm.trans hkind
  · exact opensBrace_word (hkind ▸ hscan)

include hon

/-- A brace stands where a token starts exactly if the token is one. -/
theorem Cursor.Fresh.braceAt (hfault : ∀ fault, cursor.token.kind ≠ .fault fault)
    (hfinish : cursor.token.kind ≠ .finish) :
    braceAt text cursor.token.span.start = (cursor.token.kind == .punct .lbrace) := by
  rcases hfresh with ⟨fault, hkind⟩ | ⟨width, hscan, -⟩
  · exact absurd hkind (hfault fault)
  · rw [hon.here.braceAt, opensBrace_of_scanKind hscan]
    intro hnil
    rw [hnil] at hscan
    exact hfinish (Prod.mk.inj hscan).1.symm

/-- No brace stands where another token starts. -/
theorem Cursor.Fresh.apart (hkind : cursor.token.kind.isApart = true) :
    Text.braceAt text cursor.token.span.start = false := by
  rw [hfresh.braceAt hon]
  · cases hbrace : cursor.token.kind == .punct .lbrace with
    | false => rfl
    | true =>
      rw [eq_of_beq hbrace] at hkind
      cases hkind
  · intro fault hfault
    rw [hfault] at hkind
    cases hkind
  · intro hfinish
    rw [hfinish] at hkind
    cases hkind

omit hon in
/-- Words and punctuators take up some text. -/
theorem Cursor.Fresh.lt (hkind : cursor.token.kind.isWordOrPunct = true) :
    cursor.token.span.start < cursor.token.span.stop := by
  rcases hfresh with ⟨fault, hfault⟩ | ⟨width, hscan, hstop⟩
  · rw [hfault] at hkind
    cases hkind
  · have hpos := byteLength_pos_of_scanKind hscan hkind
    omega

/-- What a function can begin with is no brace, and takes up some text. -/
theorem Cursor.Fresh.head (hkind : cursor.token.kind.isHead = true) :
    Text.braceAt text cursor.token.span.start = false ∧
      cursor.token.span.start < cursor.token.span.stop := by
  refine ⟨hfresh.apart hon ?_, hfresh.lt ?_⟩
  · revert hkind
    cases cursor.token.kind with
    | punct p => cases p <;> decide
    | word => exact fun _ => rfl
    | _ => nofun
  · revert hkind
    cases cursor.token.kind with
    | punct p => exact fun _ => rfl
    | word => exact fun _ => rfl
    | _ => nofun

end Grammar

end MarkupCompiler
