import Mathlib
import MarkupCompiler.Proofs.TypeSpec

/-!
# What the parsers of markup leave and give

Markup is looked for at an angle bracket. What follows the bracket is a name or the end of a tag, so
the bracket opens a tag of the text (`OpensTag`).
-/

namespace MarkupCompiler.Grammar

open Std.Do Syntax Text

set_option mvcgen.warning false

attribute [local simp] Attribute.layouts AttributeValue.layouts Child.layouts Markup.layout
  Element.layout Attribute.IsSpelled AttributeValue.IsSpelled Child.IsSpelled Markup.IsSpelled
  Element.IsSpelled

variable [Source] {c₀ : Cursor}

/-! ## Names in tags -/

/-- What a name in a tag goes on with is spelled in the text. -/
theorem spelled_tail {cursor : Cursor} (hon : cursor.On Source.text) (p : Char → Bool) :
    Spelled Source.text (String.ofList (cursor.after.takeWhile p)) :=
  spelled_ofList fun _ _ hc => .inl (hon.after.subset ((List.takeWhile_prefix _).subset hc))

/-- A name in a tag is read from a word, and spelled in the text. -/
@[spec] theorem tagWord_spec :
    Ensures c₀ tagWord fun name cursor => c₀.On Source.text → Kept c₀.lastStop cursor ∧
      Spelled Source.text name ∧ ∃ word keyword, c₀.token.kind = .word word keyword := by
  refine triple_imp fun hon => ?_
  mvcgen [tagWord]
  · rename_i cursor h name keyword hkind tail
    subst h
    have hspelled := hon.spelled
    rw [hkind, TokenKind.isSpelled_word] at hspelled
    have horder := hon.order
    simp only [tail]
    split
    · exact ⟨.moveTo _ (hon.after.dropTaken _) (by omega), hspelled.append (spelled_tail hon _),
        name, keyword, hkind⟩
    · exact ⟨.moveTo _ hon.after (by omega), hspelled.append (spelled_of_forall_not_mem (by simp)),
        name, keyword, hkind⟩
  · exact False.elim

/-- The names after the dots of a tag are spelled in the text. -/
@[spec] theorem tagMembers_spec :
    Ensures c₀ tagMembers fun names cursor => c₀.On Source.text → Kept c₀.lastStop cursor ∧
      ∀ name ∈ names, Spelled Source.text name := by
  refine ensures_iff.2 ?_
  rintro scope names last hrun hon
  refine loop_invariant (fun _ names => ∀ name ∈ names, Spelled Source.text name)
    (fun _ names => ∀ name ∈ names, Spelled Source.text name) ?_ hrun hon nofun
  clear hrun hon
  intro n names hnames
  mvcgen with (simp_all <;> omega)

/-- The tag of an element begins with a word, and is spelled in the text. -/
@[spec] theorem tagName_spec :
    Ensures c₀ tagName fun tag cursor => c₀.On Source.text → Given c₀.lastStop tag cursor ∧
      ∃ word keyword, c₀.token.kind = .word word keyword := by
  refine triple_imp fun hon => ?_
  mvcgen [tagName]
  case vc3 =>
    rename_i hthis _ _ _
    clear hthis
    simp_all
    omega
  all_goals (simp_all; omega)

/-- The name of an attribute is spelled in the text. -/
@[spec] theorem attributeName_spec :
    Ensures c₀ attributeName fun name cursor => c₀.On Source.text → Kept c₀.lastStop cursor ∧
      Spelled Source.text name := by
  refine triple_imp fun hon => ?_
  mvcgen [attributeName] with simp_all
  · rename_i hname _ _ hword
    exact ⟨by omega, hname.2.1.namespaced hword.2.1⟩
  · omega

/-! ## Texts in markup -/

/-- Where a tag may open, the cursor is put on its angle bracket. -/
@[spec] theorem moveToTag_spec {offset : Nat} {rest : List Char} :
    Ensures c₀ (moveToTag offset rest) fun _ cursor => IsLeft Source.text offset rest →
      c₀.lastStop ≤ offset →
      Kept c₀.lastStop cursor ∧ (rest.head? = some '<' → cursor.token.kind = .punct .lt) ∧
      (rest.head? = some '\x7b' → cursor.token.kind = .punct .lbrace) := by
  refine triple_imp fun hleft => triple_imp fun hle => ?_
  mvcgen [moveToTag]
  · rename_i cursor _ _ hopens _
    obtain ⟨tail, rfl⟩ := List.head?_eq_some_iff.mp (eq_of_beq hopens)
    have hhere : (cursor.moveTo offset ('<' :: tail)).here = '<' :: tail :=
      (Cursor.moveTo_of_isSolid rfl Prod.mk.eta.symm cursor offset).1
    exact ⟨(Kept.moveTo cursor hleft hle).narrow (p := .lt) hhere, fun _ => rfl, nofun⟩
  · rename_i cursor _ _ hopens
    refine ⟨.moveTo cursor hleft hle, fun hhead => absurd (beq_of_eq hhead) hopens, fun hhead => ?_⟩
    obtain ⟨tail, rfl⟩ := List.head?_eq_some_iff.mp hhead
    exact (Cursor.moveTo_of_isSolid rfl rfl cursor offset).2

/-- A quoted value is read from its quote on. -/
@[spec] theorem quotedValue_spec {quote : Char} (hquote : quote.utf8Size = 1) :
    Ensures c₀ (quotedValue quote) fun value cursor => c₀.On Source.text →
      c₀.here.head? = some quote → Kept c₀.lastStop cursor ∧ Spelled Source.text value := by
  refine triple_imp fun hon => triple_imp fun hhead => ?_
  mvcgen [quotedValue]
  rename_i cursor h start after raw _ hclosed
  subst h
  obtain ⟨tail, hhere⟩ := List.head?_eq_some_iff.mp hhead
  have hafter : IsLeft Source.text (start + 1) after := by
    simp only [start, after, hhere, List.drop_one, List.tail_cons]
    exact hquote ▸ (hhere ▸ hon.here).cons
  have hspelled : Spelled Source.text (String.ofList raw) :=
    spelled_ofList fun _ _ hc => .inl (hafter.subset ((List.takeWhile_prefix _).subset hc))
  refine ⟨.moveTo cursor ?_ (by have := hon.order; omega), hspelled⟩
  have hleft := hafter.dropQuoted hquote (by simpa using hclosed)
  rwa [show start + byteLength raw + 2 = start + 1 + byteLength raw + 1 by omega]

/-- Children are in order with the text after them, if there is any. -/
theorem given_children {cursor : Cursor} {p : Char → Bool} {children : List Child} {n : Nat}
    (hon : cursor.On Source.text) (h : Opened children ∧ reach children ≤ n) :
    Opened (if (cursor.after.takeWhile p).isEmpty = true then children
        else .text (String.ofList (cursor.after.takeWhile p)) :: children) ∧
      reach (if (cursor.after.takeWhile p).isEmpty = true then children
        else .text (String.ofList (cursor.after.takeWhile p)) :: children) ≤ n := by
  have hspelled := spelled_tail hon p
  split <;> simp_all

namespace Rules

/-- What is noted of a text between tags does not move the cursor. -/
@[spec] theorem noteLooseBrackets_spec (offset : Nat) (rest : List Char) :
    Ensures c₀ (noteLooseBrackets offset rest) fun _ cursor => c₀.On Source.text →
      cursor.On Source.text ∧ cursor.lastStop = c₀.lastStop := by
  induction rest generalizing c₀ offset with
  | nil =>
    refine triple_imp fun hon => ?_
    mvcgen [noteLooseBrackets]
    simp_all
  | cons c rest ih =>
    refine triple_imp fun hon => ?_
    mvcgen [noteLooseBrackets, ih, note, -note_spec] with simp_all +zetaDelta

/-- A closing tag goes on in the text. -/
@[spec] theorem closingTag_spec (tag : TagName) : Keeps c₀ (closingTag tag) := by
  refine keeps_of fun n => ?_
  mvcgen [closingTag] with (simp_all; omega)

variable {r : Rules} (hr : r.Sound)
include hr

/-- The value of an attribute is in order. -/
@[spec] theorem attributeValue_spec : Grammar.Sound c₀ r.attributeValue := by
  refine sound_of fun n => ?_
  mvcgen [attributeValue]
  case vc9 =>
    rename_i cursor h tail hhere _ _ _ _ hmarkup _ _ _ hnext
    have hkept : Kept n (cursor.narrow .lt) := Kept.narrow (p := .lt) ⟨h.1, h.2.ge⟩ hhere
    have hgiven := (hmarkup hkept.on rfl).1
    have hend := hnext hgiven.on
    have hle := hkept.le.trans (hgiven.le.trans hend.le)
    clear hmarkup hnext
    simp_all
    omega
  all_goals (simp_all <;> omega)

/-- An attribute is in order. -/
@[spec] theorem attributeLike_spec : Grammar.Sound c₀ r.attributeLike := by
  refine sound_of fun n => ?_
  mvcgen [attributeLike] with (simp_all; omega)

/-- A child in braces is in order. -/
@[spec] theorem childInBraces_spec : Grammar.Sound c₀ r.childInBraces := by
  refine sound_of fun n => ?_
  mvcgen [childInBraces] with simp_all
  refine ⟨by omega, ?_⟩
  split <;> simp_all <;> omega

/-- Children are in order. -/
@[spec] theorem childrenAfter_spec : Grammar.Sound c₀ r.childrenAfter := by
  refine sound_of fun n => ?_
  mvcgen [childrenAfter]
  case vc1 => simp_all
  case vc8 =>
    rename_i h offset raw rest _ _ hrest children _ _ hnoted _ _ _ hmove _ _ _ _ hread _ _ _ hchild
    have hnoted := hnoted h.1
    have hmoved := hmove (h.1.after.dropTaken _) (by have := h.1.order; omega)
    have hchildren : Opened children ∧ reach children ≤ _ := given_children h.1 h.2.2
    obtain ⟨rfl, -⟩ := hread
    have hgiven := (hchild hmoved.1.on).1
    clear hchild hmove
    simp_all
    omega
  case vc9 =>
    rename_i h offset raw rest _ _ hrest children _ _ hnoted _ _ _ hmove _ _ _ _ hread _ _ _ _ hnext
    have hnoted := hnoted h.1
    have hmoved := hmove (h.1.after.dropTaken _) (by have := h.1.order; omega)
    have hchildren : Opened children ∧ reach children ≤ _ := given_children h.1 h.2.2
    obtain ⟨rfl, -⟩ := hread
    obtain ⟨rfl, -⟩ := hnext
    clear hmove
    simp_all
    omega
  case vc11 =>
    rename_i before h offset raw rest _ _ hrest children _ _ hnoted _ _ _ hmove _ hbrace _ _ hread
      _ _ _ cursor hnext _ _ _ hmarkup
    have hnoted := hnoted h.1
    have hmoved := hmove (h.1.after.dropTaken _) (by have := h.1.order; omega)
    have hchildren : Opened children ∧ reach children ≤ _ := given_children h.1 h.2.2
    obtain ⟨rfl, rfl⟩ := hread
    obtain ⟨rfl, -⟩ := hnext
    -- Text between tags ends at a brace or an angle bracket, and the cursor is at no brace.
    have hlt : cursor.token.kind = .punct .lt := by
      rcases dropTaken_eq (fun c => c != '<' && c != '\x7b') before.after with
        hnil | ⟨c, tail, heq, hc⟩
      · exact absurd (List.isEmpty_iff.mpr hnil) hrest
      · have hhead : rest.head? = some c := List.head?_eq_some_iff.mpr ⟨tail, heq⟩
        rcases (by simpa [or_iff_not_imp_left] using hc : c = '<' ∨ c = '\x7b') with rfl | rfl
        · exact hmoved.2.1 hhead
        · exact absurd (beq_of_eq (hmoved.2.2 hhead)) hbrace
    have hgiven := (hmarkup hmoved.1.on hlt).1
    clear hmarkup hmove
    simp_all
    omega

/-- A fragment is in order from the end of its opening tag on. -/
@[spec] theorem fragmentRest_spec (start : Nat) :
    Ensures c₀ (r.fragmentRest start) fun m cursor => c₀.On Source.text →
      OpensTag Source.text start →
      start ≤ c₀.lastStop → Given c₀.lastStop m cursor ∧ Starts start m := by
  refine triple_imp fun hon => triple_imp fun hopens => triple_imp fun hstart => ?_
  mvcgen [fragmentRest] with (simp_all; omega)

/-- A tag is opened if a name stands at the front of what is left of it. -/
@[spec] theorem elementRest_spec (start : Nat) :
    Ensures c₀ (r.elementRest start) fun m cursor => c₀.On Source.text →
      (∀ word keyword, c₀.token.kind = .word word keyword → OpensTag Source.text start) →
      start ≤ c₀.lastStop → Given c₀.lastStop m cursor ∧ Starts start m := by
  refine triple_imp fun hon => triple_imp fun hopens => triple_imp fun hstart => ?_
  mvcgen [elementRest] with simp_all
  all_goals grind

omit hr in
/-- What is read from the token of a cursor on starts no sooner than the last token ends. -/
theorem given_from_token {cursor last : Cursor} {m : Markup} (hon : cursor.On Source.text)
    (hgiven : Given cursor.next.lastStop m last) (hstarts : Starts cursor.token.span.start m) :
    Given cursor.lastStop m last ∧ Starts cursor.lastStop m := by
  have hle : cursor.lastStop ≤ cursor.next.lastStop := hon.order.1.trans hon.order.2
  refine ⟨⟨⟨hgiven.on, hle.trans hgiven.le⟩, hgiven.opened, hgiven.reach_le⟩, ?_⟩
  simp only [result_markup] at hstarts ⊢
  exact hon.order.1.trans hstarts

/-- Markup is in order from its angle bracket on. -/
@[spec] theorem markupLike_spec :
    Ensures c₀ r.markupLike fun m cursor => c₀.On Source.text → c₀.token.kind = .punct .lt →
      Given c₀.lastStop m cursor ∧ Starts c₀.lastStop m := by
  refine triple_imp fun hon => triple_imp fun hkind => ?_
  mvcgen [markupLike, advance, -advance_spec]
  case vc1 =>
    rename_i h _ _ _ hread _ _ hgt _ _ hnext _ _ _
    obtain ⟨rfl, rfl, -⟩ := hread
    obtain ⟨rfl, rfl⟩ := hnext
    subst h
    intro hrest
    have hopens := hon.opensTag hkind (.inl (eq_of_beq hgt))
    obtain ⟨hgiven, hstarts⟩ := hrest hon.next hopens hon.order.2
    exact given_from_token hon hgiven hstarts
  case vc3 =>
    rename_i h _ _ _ hread _ _ _ _ _ hnext _ _ _
    obtain ⟨rfl, rfl, -⟩ := hread
    obtain ⟨rfl, rfl⟩ := hnext
    subst h
    intro hrest
    have hopens := fun word keyword hword => hon.opensTag hkind (.inr ⟨word, keyword, hword⟩)
    obtain ⟨hgiven, hstarts⟩ := hrest hon.next hopens hon.order.2
    exact given_from_token hon hgiven hstarts
  all_goals exact fun _ _ _ _ => hr

end Rules

end MarkupCompiler.Grammar
