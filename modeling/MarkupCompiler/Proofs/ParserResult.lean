import MarkupCompiler.Proofs.CursorPlace
import MarkupCompiler.Proofs.Layout

/-!
# What is known of the results of parsers

A parser gives a tree, or several trees, or something without any. Of each result three things are
known. It is in order (`Opened`): all markup in it opens a tag of the text and starts before the end
of whatever it stands in, the markup among the parameters of a function starts before the body, and
names and texts are spelled in the text. No markup in it starts after a certain offset (`reach`).
And an expression does not start before the place where its parser started (`Starts`).
-/

namespace MarkupCompiler

open Syntax Text Grammar

namespace Layout

/-! ## Parts of a tree -/

mutual

/-- The last offset at which markup in a part of a tree starts. -/
def reach : Layout → Nat
  | mk kind span parts => max (if kind = .markup then span.start else 0) (reachOf parts)

/-- The last offset at which markup in several parts of a tree starts. -/
def reachOf : List Layout → Nat
  | [] => 0
  | x :: xs => max x.reach (reachOf xs)

end

/-- The parameters of a function have all their markup before its body. -/
def HeadFits : List Layout → Prop
  | params :: body :: _ => params.reach ≤ body.span.start
  | _ => True

/-- A part of a tree is in its place: it opens a tag of the text if it is markup, and markup in it
starts before it ends, and before the body if it is among the parameters of a function. -/
structure Placed (text : List Char) (x : Layout) : Prop where
  opens : x.isMarkup = true → OpensTag text x.span.start
  reach_le : x.reach ≤ x.span.stop
  head : x.kind = .function → HeadFits x.parts

/-- A part of a tree and all parts in it are in their places. -/
def Opened (text : List Char) (x : Layout) : Prop := ∀ y ∈ x.nodes, y.Placed text

/-- Several parts of a tree and all parts in them are in their places. -/
def AllOpened (text : List Char) (xs : List Layout) : Prop := ∀ x ∈ xs, x.Opened text

variable {text : List Char}

/-- The span of a part of a tree. -/
@[simp] theorem span_mk (kind : Kind) (span : Span) (parts : List Layout) :
    (mk kind span parts).span = span := rfl

/-- No parts reach nowhere. -/
@[simp] theorem reachOf_nil : reachOf [] = 0 := rfl

/-- Parts reach as far as the first or the others. -/
@[simp] theorem reachOf_cons (x : Layout) (xs : List Layout) :
    reachOf (x :: xs) = max x.reach (reachOf xs) := rfl

/-- Parts reach as far as either half of them. -/
@[simp] theorem reachOf_append (xs ys : List Layout) :
    reachOf (xs ++ ys) = max (reachOf xs) (reachOf ys) := by
  induction xs with
  | nil => exact (Nat.zero_max _).symm
  | cons x xs ih => rw [List.cons_append, reachOf_cons, reachOf_cons, ih, Nat.max_assoc]

/-- A part that is no markup reaches as far as its own parts. -/
@[simp] theorem reach_plain (span : Span) (parts : List Layout) :
    (mk .plain span parts).reach = reachOf parts := Nat.zero_max _

/-- A token reaches as far as its parts. -/
@[simp] theorem reach_token (span : Span) (parts : List Layout) :
    (mk .token span parts).reach = reachOf parts := Nat.zero_max _

/-- A function reaches as far as its parts. -/
@[simp] theorem reach_function (span : Span) (parts : List Layout) :
    (mk .function span parts).reach = reachOf parts := Nat.zero_max _

/-- Markup reaches as far as its start or its parts. -/
@[simp] theorem reach_markup (span : Span) (parts : List Layout) :
    (mk .markup span parts).reach = max span.start (reachOf parts) := rfl

variable {x : Layout}

/-- The reach of parts is that of the farthest of them. -/
theorem reach_le_reachOf {xs : List Layout} (h : x ∈ xs) : x.reach ≤ reachOf xs := by
  induction xs with
  | nil => cases h
  | cons first xs ih =>
    rw [reachOf_cons]
    rcases List.mem_cons.1 h with rfl | h
    · exact Nat.le_max_left _ _
    · exact Nat.le_trans (ih h) (Nat.le_max_right _ _)

/-- What is in a part of a tree reaches no farther than the part. -/
theorem reach_le_of_mem_nodes {x y : Layout} (h : y ∈ x.nodes) : y.reach ≤ x.reach := by
  induction x with
  | mk kind span parts ih =>
    rw [nodes_eq, List.mem_cons] at h
    rcases h with rfl | h
    · exact Nat.le_refl _
    · obtain ⟨part, hpart, hy⟩ := mem_inner_iff.1 h
      exact Nat.le_trans (ih part hpart hy)
        (Nat.le_trans (reach_le_reachOf hpart) (Nat.le_max_right _ _))

/-- Markup starts within its reach. -/
theorem start_le_reach (h : x.isMarkup = true) : x.span.start ≤ x.reach := by
  obtain ⟨kind, span, parts⟩ := x
  obtain rfl : kind = .markup := eq_of_beq h
  exact Nat.le_max_left _ _

/-- Markup in a part that is in its place starts before the part ends. -/
theorem Opened.reach_le (h : x.Opened text) : x.reach ≤ x.span.stop :=
  (h x x.mem_nodes_self).reach_le

/-- What is in a part that is in its place is in its place. -/
theorem Opened.of_mem {x y : Layout} (h : x.Opened text) (hy : y ∈ x.nodes) : y.Opened text :=
  fun z hz => h z (mem_nodes_trans hz hy)

/-- No parts are in their places. -/
@[simp] theorem allOpened_nil : AllOpened text [] := nofun

/-- Parts are in their places if the first and the others are. -/
@[simp] theorem allOpened_cons {xs : List Layout} :
    AllOpened text (x :: xs) ↔ x.Opened text ∧ AllOpened text xs := List.forall_mem_cons

/-- Parts are in their places if both halves of them are. -/
@[simp] theorem allOpened_append {xs ys : List Layout} :
    AllOpened text (xs ++ ys) ↔ AllOpened text xs ∧ AllOpened text ys := List.forall_mem_append

/-- A single part is in its place. -/
@[simp] theorem allOpened_singleton : AllOpened text [x] ↔ x.Opened text :=
  List.forall_mem_singleton

/-- A part and all in it are in their places if it is placed and its parts are. -/
@[simp] theorem opened_mk {kind : Kind} {span : Span} {parts : List Layout} :
    (mk kind span parts).Opened text ↔
      (kind = .markup → OpensTag text span.start) ∧ (mk kind span parts).reach ≤ span.stop ∧
        (kind = .function → HeadFits parts) ∧ AllOpened text parts := by
  constructor
  · intro h
    obtain ⟨hopens, hreach, hhead⟩ := h _ (mem_nodes_self _)
    refine ⟨fun hkind => hopens (beq_of_eq hkind), hreach, hhead, fun part hpart => ?_⟩
    exact h.of_mem (mem_nodes_of_mem_inner (mem_inner_of_mem_parts hpart))
  · rintro ⟨hopens, hreach, hhead, hparts⟩ y hy
    rw [nodes_eq, List.mem_cons] at hy
    rcases hy with rfl | hy
    · exact ⟨fun hkind => hopens (eq_of_beq hkind), hreach, hhead⟩
    · obtain ⟨part, hpart, hy⟩ := mem_inner_iff.1 hy
      exact hparts part hpart y hy

/-- Markup that opens a tag of a text starts in the text. -/
theorem Opened.reach_le_byteLength (h : x.Opened text) : x.reach ≤ byteLength text := by
  induction x with
  | mk kind span parts ih =>
    obtain ⟨hopens, -, -, hparts⟩ := opened_mk.1 h
    have hinner : reachOf parts ≤ byteLength text := by
      clear h
      induction parts with
      | nil => exact Nat.zero_le _
      | cons part parts ihParts =>
        rw [allOpened_cons] at hparts
        rw [reachOf_cons]
        refine Nat.max_le.2 ⟨ih part (.head _) hparts.1, ?_⟩
        exact ihParts (fun x hx => ih x (List.mem_cons_of_mem part hx)) hparts.2
    rw [reach]
    refine Nat.max_le.2 ⟨?_, hinner⟩
    split
    · obtain ⟨before, c, rest, rfl, hoffset, -⟩ := hopens ‹_›
      rw [← hoffset, byteLength_append]
      exact Nat.le_add_right _ _
    · exact Nat.zero_le _

/-- The key of a property is no markup. -/
@[simp] theorem key_ne_markup (p : Prop) [Decidable p] :
    (if p then Kind.plain else Kind.token) ≠ Kind.markup := by
  split <;> nofun

/-- The key of a property is no function. -/
@[simp] theorem key_ne_function (p : Prop) [Decidable p] :
    (if p then Kind.plain else Kind.token) ≠ Kind.function := by
  split <;> nofun

/-- The key of a property reaches as far as its parts. -/
@[simp] theorem reach_key (p : Prop) [Decidable p] (span : Span) (parts : List Layout) :
    (mk (if p then Kind.plain else Kind.token) span parts).reach = reachOf parts := by
  split <;> simp

/-- Parameters fit where there is no body. -/
@[simp] theorem headFits_singleton (params : Layout) : HeadFits [params] := trivial

end Layout

namespace Grammar

/-! ## Results -/

/-- What a parser gives: the trees in it, with their names and texts, and where it may start. -/
class HasMarkup (α : Type) where
  /-- The layouts of the trees in a result. -/
  layouts : α → List Layout
  /-- The names and texts of a result are spelled in a text. -/
  spelled : List Char → α → Prop
  /-- A result does not start before an offset. -/
  starts : Nat → α → Prop

/-- The text that is read. It is one text for all parsers, so that no specification names it. -/
class Source where
  text : List Char

section

variable {α β : Type} [HasMarkup α] [HasMarkup β]

/-- What a parser gives is in order: its trees are in their places in the text, and their names and
texts are spelled in it. -/
def Opened [Source] (a : α) : Prop :=
  Layout.AllOpened Source.text (HasMarkup.layouts a) ∧ HasMarkup.spelled Source.text a

/-- The last offset at which markup starts in what a parser gives. -/
def reach (a : α) : Nat := Layout.reachOf (HasMarkup.layouts a)

/-- What a parser gives does not start before an offset. -/
def Starts (offset : Nat) (a : α) : Prop := HasMarkup.starts offset a

end

section

variable {α β : Type}

/-- No markup stands in results of other types. -/
instance (priority := low) noMarkup : HasMarkup α where
  layouts _ := []
  spelled _ _ := True
  starts _ _ := True

instance [HasMarkup α] : HasMarkup (List α) where
  layouts as := as.flatMap HasMarkup.layouts
  spelled text as := ∀ a ∈ as, HasMarkup.spelled text a
  starts _ _ := True

instance [HasMarkup α] : HasMarkup (Option α) where
  layouts a? := a?.toList.flatMap HasMarkup.layouts
  spelled text a? := ∀ a ∈ a?, HasMarkup.spelled text a
  starts offset a? := ∀ a ∈ a?, HasMarkup.starts offset a

instance [HasMarkup α] [HasMarkup β] : HasMarkup (α × β) where
  layouts pair := HasMarkup.layouts pair.1 ++ HasMarkup.layouts pair.2
  spelled text pair := HasMarkup.spelled text pair.1 ∧ HasMarkup.spelled text pair.2
  starts offset pair := HasMarkup.starts offset pair.1 ∧ HasMarkup.starts offset pair.2

instance [HasMarkup α] [HasMarkup β] : HasMarkup (α ⊕ β) where
  layouts := Sum.elim HasMarkup.layouts HasMarkup.layouts
  spelled text := Sum.elim (HasMarkup.spelled text) (HasMarkup.spelled text)
  starts offset := Sum.elim (HasMarkup.starts offset) (HasMarkup.starts offset)

instance : HasMarkup Expr where
  layouts e := [e.layout]
  spelled text e := e.IsSpelled text
  starts offset e := offset ≤ e.span.start

instance : HasMarkup Item where
  layouts := Item.layouts
  spelled text item := item.IsSpelled text
  starts _ _ := True

instance : HasMarkup Property where
  layouts := Property.layouts
  spelled text property := property.IsSpelled text
  starts _ _ := True

instance : HasMarkup Body where
  layouts := Body.layouts
  spelled text body := body.IsSpelled text
  starts offset body := ∀ start, body.start? = some start → offset ≤ start

instance : HasMarkup Stmt where
  layouts s := [s.layout]
  spelled text s := s.IsSpelled text
  starts _ _ := True

instance : HasMarkup Markup where
  layouts m := [m.layout]
  spelled text m := m.IsSpelled text
  starts offset m := offset ≤ m.span.start

instance : HasMarkup Attribute where
  layouts := Attribute.layouts
  spelled text a := a.IsSpelled text
  starts _ _ := True

instance : HasMarkup AttributeValue where
  layouts := AttributeValue.layouts
  spelled text value := value.IsSpelled text
  starts _ _ := True

instance : HasMarkup Child where
  layouts := Child.layouts
  spelled text child := child.IsSpelled text
  starts _ _ := True

instance : HasMarkup TagName where
  layouts _ := []
  spelled text tag := tag.IsSpelled text
  starts _ _ := True

instance : HasMarkup Quasi where
  layouts _ := []
  spelled text quasi := quasi.IsSpelled text
  starts _ _ := True

end

/-! ### Single trees -/

section

variable {α : Type} [Source] {offset : Nat}

/-- What has no trees is in order. -/
@[simp] theorem result_noMarkup {a : α} :
    @Opened α noMarkup _ a ∧ @reach α noMarkup a = 0 ∧ ∀ offset, @Starts α noMarkup offset a :=
  ⟨⟨nofun, trivial⟩, rfl, fun _ => trivial⟩

/-- What is known of an expression. -/
@[simp] theorem result_expr {e : Expr} :
    (Opened e ↔ e.layout.Opened Source.text ∧ e.IsSpelled Source.text) ∧
      reach e = e.layout.reach ∧ ∀ offset, Starts offset e ↔ offset ≤ e.layout.span.start := by
  rw [e.span_layout]
  exact ⟨and_congr_left' Layout.allOpened_singleton, Nat.max_zero _, fun _ => Iff.rfl⟩

/-- What is known of an item. -/
@[simp] theorem result_item {item : Item} :
    (Opened item ↔ Layout.AllOpened Source.text item.layouts ∧ item.IsSpelled Source.text) ∧
      reach item = Layout.reachOf item.layouts ∧ ∀ offset, Starts offset item :=
  ⟨Iff.rfl, rfl, fun _ => trivial⟩

/-- What is known of a property. -/
@[simp] theorem result_property {property : Property} :
    (Opened property ↔
      Layout.AllOpened Source.text property.layouts ∧ property.IsSpelled Source.text) ∧
      reach property = Layout.reachOf property.layouts ∧ ∀ offset, Starts offset property :=
  ⟨Iff.rfl, rfl, fun _ => trivial⟩

/-- What is known of a body, but where it starts. -/
@[simp] theorem result_body {body : Body} :
    (Opened body ↔ Layout.AllOpened Source.text body.layouts ∧ body.IsSpelled Source.text) ∧
      reach body = Layout.reachOf body.layouts :=
  ⟨Iff.rfl, rfl⟩

/-- What is known of a statement. -/
@[simp] theorem result_stmt {s : Stmt} :
    (Opened s ↔ s.layout.Opened Source.text ∧ s.IsSpelled Source.text) ∧
      reach s = s.layout.reach ∧ ∀ offset, Starts offset s :=
  ⟨and_congr_left' Layout.allOpened_singleton, Nat.max_zero _, fun _ => trivial⟩

/-- What is known of markup. -/
@[simp] theorem result_markup {m : Markup} :
    (Opened m ↔ m.layout.Opened Source.text ∧ m.IsSpelled Source.text) ∧
      reach m = m.layout.reach ∧ ∀ offset, Starts offset m ↔ offset ≤ m.layout.span.start := by
  rw [m.span_layout]
  exact ⟨and_congr_left' Layout.allOpened_singleton, Nat.max_zero _, fun _ => Iff.rfl⟩

/-- What is known of an attribute. -/
@[simp] theorem result_attribute {a : Attribute} :
    (Opened a ↔ Layout.AllOpened Source.text a.layouts ∧ a.IsSpelled Source.text) ∧
      reach a = Layout.reachOf a.layouts ∧ ∀ offset, Starts offset a :=
  ⟨Iff.rfl, rfl, fun _ => trivial⟩

/-- What is known of the value of an attribute. -/
@[simp] theorem result_attributeValue {value : AttributeValue} :
    (Opened value ↔ Layout.AllOpened Source.text value.layouts ∧ value.IsSpelled Source.text) ∧
      reach value = Layout.reachOf value.layouts ∧ ∀ offset, Starts offset value :=
  ⟨Iff.rfl, rfl, fun _ => trivial⟩

/-- What is known of a child. -/
@[simp] theorem result_child {child : Child} :
    (Opened child ↔ Layout.AllOpened Source.text child.layouts ∧ child.IsSpelled Source.text) ∧
      reach child = Layout.reachOf child.layouts ∧ ∀ offset, Starts offset child :=
  ⟨Iff.rfl, rfl, fun _ => trivial⟩

/-- What is known of the name of a tag. -/
@[simp] theorem result_tagName {tag : TagName} :
    (Opened tag ↔ tag.IsSpelled Source.text) ∧ reach tag = 0 ∧ ∀ offset, Starts offset tag :=
  ⟨and_iff_right nofun, rfl, fun _ => trivial⟩

/-- What is known of a stretch of text in a template literal. -/
@[simp] theorem result_quasi {quasi : Quasi} :
    (Opened quasi ↔ quasi.IsSpelled Source.text) ∧ reach quasi = 0 ∧
      ∀ offset, Starts offset quasi :=
  ⟨and_iff_right nofun, rfl, fun _ => trivial⟩

omit [Source] in
/-- A missing body starts nowhere. -/
@[simp] theorem starts_body_missing : Starts offset Body.missing := nofun

omit [Source] in
/-- A body that is an expression starts where that starts. -/
@[simp] theorem starts_body_expr {e : Expr} :
    Starts offset (Body.expr e) ↔ offset ≤ e.layout.span.start := by
  rw [e.span_layout]
  exact ⟨fun h => h _ rfl, fun h _ heq => Option.some.inj heq ▸ h⟩

omit [Source] in
/-- A block starts at its brace. -/
@[simp] theorem starts_body_block {span : Span} {statements : List Stmt} :
    Starts offset (Body.block span statements) ↔ offset ≤ span.start :=
  ⟨fun h => h _ rfl, fun h _ heq => Option.some.inj heq ▸ h⟩

omit [Source] in
/-- The parameters of a function fit before a body that starts no sooner than they reach. -/
theorem headFits_of_starts {params : Layout} {body : Body} (hbody : Starts offset body)
    (hreach : params.reach ≤ offset) : Layout.HeadFits (params :: body.layouts) := by
  cases body with
  | missing => trivial
  | expr value => exact Nat.le_trans hreach (starts_body_expr.1 hbody)
  | block span statements => exact Nat.le_trans hreach (starts_body_block.1 hbody)

end

/-! ### Several trees -/

section

variable {α β : Type} [HasMarkup α] [HasMarkup β] [Source]

variable {as : List α} {a : α}

/-- A list is in order if all its members are. -/
theorem opened_iff_forall_mem : Opened as ↔ ∀ a ∈ as, Opened a := by
  have hlayouts : Layout.AllOpened Source.text (as.flatMap HasMarkup.layouts) ↔
      ∀ a ∈ as, Layout.AllOpened Source.text (HasMarkup.layouts a) := List.forall_mem_flatMap
  refine (and_congr_left' hlayouts).trans ⟨fun h a ha => ⟨h.1 a ha, h.2 a ha⟩, fun h => ?_⟩
  exact ⟨fun a ha => (h a ha).1, fun a ha => (h a ha).2⟩

omit [Source] in
/-- It is not known where a list starts. -/
@[simp] theorem starts_list {offset : Nat} : Starts offset as := trivial

/-- What is known of an empty list. -/
@[simp] theorem result_nil : Opened ([] : List α) ∧ reach ([] : List α) = 0 :=
  ⟨opened_iff_forall_mem.2 nofun, rfl⟩

/-- What is known of a list with a first member. -/
@[simp] theorem result_cons :
    (Opened (a :: as) ↔ Opened a ∧ Opened as) ∧ reach (a :: as) = max (reach a) (reach as) := by
  refine ⟨?_, Layout.reachOf_append _ _⟩
  simp only [opened_iff_forall_mem, List.forall_mem_cons]

/-- What is known of two lists is known of them together. -/
@[simp] theorem result_append {as bs : List α} :
    (Opened (as ++ bs) ↔ Opened as ∧ Opened bs) ∧
      reach (as ++ bs) = max (reach as) (reach bs) := by
  simp only [opened_iff_forall_mem, List.forall_mem_append, true_and]
  show Layout.reachOf ((as ++ bs).flatMap HasMarkup.layouts) = _
  rw [List.flatMap_append, Layout.reachOf_append]
  rfl

/-- The order of a list makes no difference. -/
@[simp] theorem result_reverse : (Opened as.reverse ↔ Opened as) ∧ reach as.reverse = reach as := by
  simp only [opened_iff_forall_mem, List.mem_reverse, true_and]
  induction as with
  | nil => rfl
  | cons a as ih => simp [ih, Nat.max_comm]

/-- What is known of lists is known of the list of all their members. -/
@[simp] theorem result_flatten {lists : List (List α)} :
    (Opened lists.flatten ↔ Opened lists) ∧ reach lists.flatten = reach lists := by
  induction lists with
  | nil => simp
  | cons as lists ih => simp [ih]

/-- What is known of nothing. -/
@[simp] theorem result_none :
    Opened (none : Option α) ∧ reach (none : Option α) = 0 ∧
      ∀ offset, Starts offset (none : Option α) :=
  ⟨⟨nofun, nofun⟩, rfl, fun _ => nofun⟩

/-- What is known of something that is there. -/
@[simp] theorem result_some :
    (Opened (some a) ↔ Opened a) ∧ reach (some a) = reach a ∧
      ∀ offset, Starts offset (some a) ↔ Starts offset a := by
  refine ⟨?_, ?_, fun _ => ⟨fun h => h a rfl, fun h _ heq => Option.some.inj heq ▸ h⟩⟩
  · simp [Opened, HasMarkup.layouts, HasMarkup.spelled]
  · simp [reach, HasMarkup.layouts]

/-- What may be there is a list of at most one. -/
@[simp] theorem result_toList {a? : Option α} :
    (Opened a?.toList ↔ Opened a?) ∧ reach a?.toList = reach a? := by
  cases a? <;> simp

/-- What is known of two results is known of the pair. -/
@[simp] theorem result_pair {pair : α × β} :
    (Opened pair ↔ Opened pair.1 ∧ Opened pair.2) ∧ reach pair = max (reach pair.1) (reach pair.2) ∧
      ∀ offset, Starts offset pair ↔ Starts offset pair.1 ∧ Starts offset pair.2 := by
  refine ⟨?_, Layout.reachOf_append _ _, fun _ => Iff.rfl⟩
  show Layout.AllOpened _ (_ ++ _) ∧ _ ∧ _ ↔ _
  rw [Layout.allOpened_append, and_and_and_comm]
  rfl

/-- What is known of the first of two alternatives. -/
@[simp] theorem result_inl :
    (Opened (.inl a : α ⊕ β) ↔ Opened a) ∧ reach (.inl a : α ⊕ β) = reach a ∧
      ∀ offset, Starts offset (.inl a : α ⊕ β) ↔ Starts offset a :=
  ⟨Iff.rfl, rfl, fun _ => Iff.rfl⟩

/-- What is known of the second of two alternatives. -/
@[simp] theorem result_inr {b : β} :
    (Opened (.inr b : α ⊕ β) ↔ Opened b) ∧ reach (.inr b : α ⊕ β) = reach b ∧
      ∀ offset, Starts offset (.inr b : α ⊕ β) ↔ Starts offset b :=
  ⟨Iff.rfl, rfl, fun _ => Iff.rfl⟩

/-- Expressions are known as the operands of a statement. -/
@[simp] theorem result_map_operand {es : List Expr} :
    (Opened (es.map Stmt.operand) ↔ Opened es) ∧ reach (es.map Stmt.operand) = reach es := by
  induction es with
  | nil => simp
  | cons e es ih => simp [Stmt.layout, Stmt.IsSpelled, ih]

end

/-! ### Constituents of a tree -/

section

variable {α : Type} [HasMarkup α]

/-- The layouts of several results are those of each of them. -/
theorem listLayouts_eq {listLayouts : List α → List Layout} (hnil : listLayouts [] = [])
    (hcons : ∀ a as, listLayouts (a :: as) = HasMarkup.layouts a ++ listLayouts as) (as : List α) :
    listLayouts as = HasMarkup.layouts as := by
  induction as with
  | nil => exact hnil
  | cons a as ih =>
    rw [hcons, ih]
    rfl

/-- The layouts of expressions. -/
@[simp] theorem exprsLayouts_eq (es : List Expr) : exprsLayouts es = HasMarkup.layouts es :=
  listLayouts_eq rfl (fun _ _ => rfl) es

/-- The layouts of an expression that may be there. -/
@[simp] theorem optionLayouts_eq (e? : Option Expr) :
    optionLayouts e? = HasMarkup.layouts e? := by
  cases e? <;> rfl

/-- The layouts of items. -/
@[simp] theorem itemsLayouts_eq (items : List Item) :
    itemsLayouts items = HasMarkup.layouts items :=
  listLayouts_eq rfl (fun _ _ => rfl) items

/-- The layouts of properties. -/
@[simp] theorem propertiesLayouts_eq (properties : List Property) :
    propertiesLayouts properties = HasMarkup.layouts properties :=
  listLayouts_eq rfl (fun _ _ => rfl) properties

/-- The layouts of statements. -/
@[simp] theorem stmtsLayouts_eq (ss : List Stmt) : stmtsLayouts ss = HasMarkup.layouts ss :=
  listLayouts_eq rfl (fun _ _ => rfl) ss

/-- The layouts of attributes. -/
@[simp] theorem attributesLayouts_eq (attributes : List Attribute) :
    attributesLayouts attributes = HasMarkup.layouts attributes :=
  listLayouts_eq rfl (fun _ _ => rfl) attributes

/-- The layouts of children. -/
@[simp] theorem childrenLayouts_eq (children : List Child) :
    childrenLayouts children = HasMarkup.layouts children :=
  listLayouts_eq rfl (fun _ _ => rfl) children

/-- Layouts reach as far as the result that they belong to. -/
@[simp] theorem reachOf_layouts (a : α) : Layout.reachOf (HasMarkup.layouts a) = reach a := rfl

variable [Source]

/-- The layouts of a result that is in order are in order. -/
@[simp] theorem allOpened_layouts {a : α} (h : Opened a) :
    Layout.AllOpened Source.text (HasMarkup.layouts a) := h.1

/-- No markup stands in types. -/
@[simp] theorem result_typeLayouts {types : Option Span} :
    Layout.AllOpened Source.text (typeLayouts types) ∧ Layout.reachOf (typeLayouts types) = 0 := by
  cases types <;> simp [typeLayouts]

/-- No markup stands in what marks an expression with a type. -/
@[simp] theorem result_markLayouts {mark : TypeMark} :
    Layout.AllOpened Source.text mark.layouts ∧ Layout.reachOf mark.layouts = 0 := by
  cases mark <;> simp [TypeMark.layouts]

/-- Expressions that are in order are spelled in the text. -/
@[simp] theorem exprsSpelled_of_opened {es : List Expr} (h : Opened es) :
    exprsSpelled Source.text es := exprsSpelled_iff.2 h.2

/-- An expression that may be there and is in order is spelled in the text. -/
@[simp] theorem optionSpelled_of_opened {e? : Option Expr} (h : Opened e?) :
    optionSpelled Source.text e? := optionSpelled_iff.2 h.2

/-- Items that are in order are spelled in the text. -/
@[simp] theorem itemsSpelled_of_opened {items : List Item} (h : Opened items) :
    itemsSpelled Source.text items := itemsSpelled_iff.2 h.2

/-- Properties that are in order are spelled in the text. -/
@[simp] theorem propertiesSpelled_of_opened {properties : List Property} (h : Opened properties) :
    propertiesSpelled Source.text properties := propertiesSpelled_iff.2 h.2

/-- Statements that are in order are spelled in the text. -/
@[simp] theorem stmtsSpelled_of_opened {ss : List Stmt} (h : Opened ss) :
    stmtsSpelled Source.text ss := stmtsSpelled_iff.2 h.2

/-- Attributes that are in order are spelled in the text. -/
@[simp] theorem attributesSpelled_of_opened {attributes : List Attribute} (h : Opened attributes) :
    attributesSpelled Source.text attributes := attributesSpelled_iff.2 h.2

/-- Children that are in order are spelled in the text. -/
@[simp] theorem childrenSpelled_of_opened {children : List Child} (h : Opened children) :
    childrenSpelled Source.text children := childrenSpelled_iff.2 h.2

/-- The stretches of text of a template literal. -/
@[simp] theorem forall_isSpelled_iff {quasis : List Quasi} :
    (∀ quasi ∈ quasis, quasi.IsSpelled Source.text) ↔ Opened quasis := by
  simp [opened_iff_forall_mem]

/-- Markup in an expression starts before the expression ends. -/
@[simp] theorem reach_le_stop {e : Expr} (h : e.layout.Opened Source.text) :
    e.layout.reach ≤ e.span.stop := by
  have hreach := h.reach_le
  rwa [e.span_layout] at hreach

end

end Grammar

end MarkupCompiler
