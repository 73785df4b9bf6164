import Mathlib
import MarkupCompiler.Proofs.ParserResult
import MarkupCompiler.Proofs.Parsing

/-!
# What parsers leave and give

Every parser of the grammar leaves the cursor standing in the text (`Cursor.On`), not before the
place where it was, and what it gives is in order (`Opened`). This is said by a specification for
each parser, which those of the parsers that use it are made from. Here are the parsers that all
others are made of, and what is asked of the rules for the parts of a construct (`Rules.Sound`).

A specification speaks of the runs that do not stop with a complaint (`triple_iff`). It names the
cursor that a run starts from (`Keeps`, `Sound`), so that what follows from one run can be taken
over to the next, and it is proved of all cursors before which the last token ends at one offset
(`KeepsFrom`, `SoundFrom`).
-/

namespace MarkupCompiler

open Std.Do Syntax Text Grammar

set_option mvcgen.warning false

namespace Grammar

/-! ## Specifications -/

/-- A specification says something of every run that does not stop with a complaint. -/
theorem triple_iff {α : Type} {p : Parser α} {P : Cursor → Prop} {Q : α → Cursor → Prop} :
    (⦃fun _ cursor => ⌜P cursor⌝⦄ p ⦃⇓? a => fun _ cursor => ⌜Q a cursor⌝⦄) ↔
      ∀ scope cursor, P cursor → ∀ a next, p scope cursor = .ok (a, next) → Q a next := by
  have hrun : ∀ scope cursor,
      (wp⟦p⟧ (⇓? a => fun _ cursor => ⌜Q a cursor⌝) scope cursor).down ↔
        ∀ a next, p scope cursor = .ok (a, next) → Q a next := by
    intro scope cursor
    show ((wp (p scope cursor)).apply _).down ↔ _
    cases p scope cursor with
    | error complaints =>
      constructor
      · rintro - a next ⟨⟩
      · exact fun _ => trivial
    | ok result =>
      constructor
      · rintro h a next ⟨⟩
        exact h
      · exact fun h => h result.1 result.2 rfl
  constructor
  · intro h scope cursor hP
    exact (hrun scope cursor).mp (h scope cursor hP)
  · intro h scope cursor hP
    exact (hrun scope cursor).mpr (h scope cursor hP)

/-- A cursor stands in the text, and not before an offset. -/
@[mk_iff] structure Kept [Source] (n : Nat) (cursor : Cursor) : Prop where
  on : cursor.On Source.text
  le : n ≤ cursor.lastStop

/-- What a parser gives is in order, and has its markup before the cursor that is left. -/
@[mk_iff] structure Given [Source] {α : Type} [HasMarkup α] (n : Nat) (a : α) (cursor : Cursor) :
    Prop extends Kept n cursor where
  opened : Opened a
  reach_le : reach a ≤ cursor.lastStop

attribute [simp] kept_iff given_iff

/-- What holds of the results and cursors that a parser gives if it starts from a cursor. -/
abbrev Ensures {α : Type} (c₀ : Cursor) (p : Parser α) (Q : α → Cursor → Prop) : Prop :=
  ⦃fun _ cursor => ⌜cursor = c₀⌝⦄ p ⦃⇓? a => fun _ cursor => ⌜Q a cursor⌝⦄

/-- What a parser ensures holds of every run that does not stop with a complaint. -/
theorem ensures_iff {α : Type} {c₀ : Cursor} {p : Parser α} {Q : α → Cursor → Prop} :
    Ensures c₀ p Q ↔ ∀ scope a next, p scope c₀ = .ok (a, next) → Q a next :=
  triple_iff.trans ⟨fun h scope => h scope c₀ rfl, fun h scope _ hpre => hpre ▸ h scope⟩

/-- A parser leaves the cursor where it is. -/
abbrev Reads {α : Type} (c₀ : Cursor) (p : Parser α) : Prop :=
  Ensures c₀ p fun _ cursor => cursor = c₀

/-- A parser leaves a cursor that stands in the text standing there, and not before the place where
it was. -/
abbrev Keeps [Source] {α : Type} (c₀ : Cursor) (p : Parser α) : Prop :=
  Ensures c₀ p fun _ cursor => c₀.On Source.text → Kept c₀.lastStop cursor

/-- What is more, what a parser gives is in order, and starts no sooner than the parser did. -/
abbrev Sound [Source] {α : Type} [HasMarkup α] (c₀ : Cursor) (p : Parser α) : Prop :=
  Ensures c₀ p fun a cursor => c₀.On Source.text → Given c₀.lastStop a cursor ∧ Starts c₀.lastStop a

/-- A parser whose result starts at an offset before the cursor, or after that offset. -/
abbrev SoundAt [Source] {α : Type} [HasMarkup α] (c₀ : Cursor) (start : Nat) (p : Parser α) :
    Prop :=
  Ensures c₀ p fun a cursor => c₀.On Source.text → Given c₀.lastStop a cursor ∧ Starts start a

/-- A parser that goes on from an expression that was read before the cursor. What it gives starts
at an offset, or where that expression does. -/
abbrev Extends [Source] (c₀ : Cursor) (start : Nat) (e : Expr) (p : Parser Expr) : Prop :=
  Ensures c₀ p fun a cursor => c₀.On Source.text → Opened e → reach e ≤ c₀.lastStop →
    Given c₀.lastStop a cursor ∧ Starts (min start e.layout.span.start) a

/-- What `Keeps` says, of all cursors before which a token ends at an offset. -/
abbrev KeepsFrom [Source] {α : Type} (n : Nat) (p : Parser α) : Prop :=
  ⦃fun _ cursor => ⌜cursor.On Source.text ∧ cursor.lastStop = n⌝⦄ p
  ⦃⇓? _ => fun _ cursor => ⌜Kept n cursor⌝⦄

/-- What `Sound` says, of all cursors before which a token ends at an offset. -/
abbrev SoundFrom [Source] {α : Type} [HasMarkup α] (n : Nat) (p : Parser α) : Prop :=
  ⦃fun _ cursor => ⌜cursor.On Source.text ∧ cursor.lastStop = n⌝⦄ p
  ⦃⇓? a => fun _ cursor => ⌜Given n a cursor ∧ Starts n a⌝⦄

/-- A parser stops with a complaint. -/
abbrev Stops {α : Type} (p : Parser α) : Prop :=
  ⦃fun _ _ => ⌜True⌝⦄ p ⦃⇓? _ => fun _ _ => ⌜False⌝⦄

section

variable {α β : Type}

/-- Of a parser that stops with a complaint anything can be said. -/
theorem Stops.triple {p : Parser α} (h : Stops p) {P : Cursor → Prop} {Q : α → Cursor → Prop} :
    ⦃fun _ cursor => ⌜P cursor⌝⦄ p ⦃⇓? a => fun _ cursor => ⌜Q a cursor⌝⦄ :=
  triple_iff.mpr fun scope cursor _ a next hrun =>
    (triple_iff.mp h scope cursor trivial a next hrun).elim

variable {c₀ : Cursor}

/-- What is said of a parser under a condition on the cursor that it starts from. -/
theorem triple_imp {p : Parser α} {P : Prop} {Q : α → Cursor → Prop}
    (h : P → Ensures c₀ p Q) :
    Ensures c₀ p fun a cursor => P → Q a cursor :=
  ensures_iff.2 fun scope a next hrun hP => ensures_iff.1 (h hP) scope a next hrun

/-- What is said of the end of the last token before a cursor is said of the cursor. -/
theorem keeps_of [Source] {p : Parser α} (h : ∀ n, KeepsFrom n p) : Keeps c₀ p :=
  ensures_iff.2 fun scope a next hrun hon =>
    triple_iff.1 (h c₀.lastStop) scope c₀ ⟨hon, rfl⟩ a next hrun

/-- What is said of the end of the last token before a cursor is said of the cursor. -/
theorem sound_of [Source] [HasMarkup α] {p : Parser α} (h : ∀ n, SoundFrom n p) : Sound c₀ p :=
  ensures_iff.2 fun scope a next hrun hon =>
    triple_iff.1 (h c₀.lastStop) scope c₀ ⟨hon, rfl⟩ a next hrun

/-- What is said of a parser that goes on from an expression, if that is in order. -/
theorem extends_of [Source] {p : Parser Expr} {start : Nat} {e : Expr}
    (h : c₀.On Source.text → Opened e → reach e ≤ c₀.lastStop →
      Ensures c₀ p fun a cursor => Given c₀.lastStop a cursor ∧
        Starts (min start e.layout.span.start) a) :
    Extends c₀ start e p :=
  triple_imp fun hon => triple_imp fun hopened => triple_imp fun hreach => h hon hopened hreach

/-! ### Complaints -/

/-- Failing at an offset stops. -/
@[spec] theorem failAt_spec (complaint : Complaint) (offset : Nat) :
    Stops (failAt complaint offset : Parser α) := by
  rw [Stops, triple_iff]
  rintro scope cursor - a next ⟨⟩

/-- Failing at the cursor stops. -/
@[spec] theorem failHere_spec (complaint : Complaint) :
    Stops (failHere complaint : Parser α) := by
  rw [Stops, triple_iff]
  rintro scope cursor - a next h
  obtain ⟨complaints, hfails⟩ := failHere_apply (α := α) scope cursor complaint
  rw [hfails] at h
  cases h

/-- A token that cannot stand here stops the parser. -/
@[spec] theorem unexpected_spec : Stops (unexpected : Parser α) := failHere_spec _

/-! ### Tokens -/

section

variable [Source]

/-- The token at a cursor in the text is spelled there, and starts where the last one ends or
after. -/
@[spec] theorem token_spec :
    Ensures c₀ token fun a cursor => cursor = c₀ ∧ a = c₀.token ∧ (c₀.On Source.text →
      c₀.token.kind.IsSpelled Source.text ∧ c₀.lastStop ≤ c₀.token.span.start ∧
        c₀.token.span.start ≤ c₀.token.span.stop) := by
  refine ensures_iff.2 ?_
  rintro scope _ _ ⟨⟩
  exact ⟨rfl, rfl, fun hon => ⟨hon.spelled, hon.order⟩⟩

/-- The token at a cursor starts where the last one ends or after. -/
@[spec] theorem startOffset_spec :
    Ensures c₀ startOffset fun a cursor => cursor = c₀ ∧ a = c₀.token.span.start ∧
      (c₀.On Source.text → c₀.lastStop ≤ c₀.token.span.start) := by
  refine ensures_iff.2 ?_
  rintro scope _ _ ⟨⟩
  exact ⟨rfl, rfl, fun hon => hon.order.1⟩

/-- Noting a complaint stays in the text. -/
@[spec] theorem note_spec (complaint : Complaint) (offset : Nat) :
    Keeps c₀ (note complaint offset) := by
  refine ensures_iff.2 ?_
  rintro scope _ _ ⟨⟩ hon
  exact ⟨Cursor.on_mk.2 hon, le_rfl⟩

/-- Noting a broken rule stays in the text. -/
@[spec] theorem breaks_spec (rule : Rule) (offset : Nat) : Keeps c₀ (breaks rule offset) :=
  note_spec _ _

/-- Noting a rule that may be broken stays in the text. -/
@[spec] theorem breaksIf_spec (isBroken : Bool) (rule : Rule) :
    Keeps c₀ (breaksIf isBroken rule) := by
  refine keeps_of fun n => ?_
  mvcgen [breaksIf] with simp_all

/-- Passing a token goes on in the text. -/
@[spec] theorem advance_spec : Keeps c₀ advance := by
  refine ensures_iff.2 ?_
  rintro scope _ _ ⟨⟩ hon
  exact ⟨hon.next, le_trans hon.order.1 hon.order.2⟩

end

/-- A span ends where the last token does. -/
@[spec] theorem spanFrom_spec (start : Nat) :
    Ensures c₀ (spanFrom start) fun a cursor => cursor = c₀ ∧ a = ⟨start, c₀.lastStop⟩ := by
  refine ensures_iff.2 ?_
  rintro scope _ _ ⟨⟩
  exact ⟨rfl, rfl⟩

/-- A test for a punctuator tells what the token of the cursor is. -/
@[spec] theorem at?_spec (p : Punct) :
    Ensures c₀ (at? p) fun a cursor => cursor = c₀ ∧ a = (c₀.token.kind == .punct p) := by
  refine ensures_iff.2 ?_
  rintro scope _ _ ⟨⟩
  exact ⟨rfl, rfl⟩

/-- A test for a keyword moves nothing. -/
@[spec] theorem atKeyword?_spec (keyword : Keyword) : Reads c₀ (atKeyword? keyword) := by
  refine ensures_iff.2 ?_
  rintro scope _ _ ⟨⟩
  rfl

/-- A test for several keywords moves nothing. -/
@[spec] theorem atOneOf?_spec (keywords : List Keyword) : Reads c₀ (atOneOf? keywords) := by
  refine ensures_iff.2 ?_
  rintro scope _ _ ⟨⟩
  rfl

/-- The token after the one at the cursor is looked at in place. -/
@[spec] theorem peek_spec :
    Ensures c₀ peek fun a cursor => cursor = c₀ ∧ a = c₀.next.token := by
  refine ensures_iff.2 ?_
  rintro scope _ _ ⟨⟩
  exact ⟨rfl, rfl⟩

/-- Looking ahead moves nothing. -/
@[spec] theorem lookAhead_spec (p : Parser α) : Reads c₀ (lookAhead p) := by
  refine ensures_iff.2 ?_
  rintro scope a next hrun
  rw [lookAhead, Parser.bind_apply, Parser.get_apply, ok_bind, Parser.bind_apply] at hrun
  cases hp : p scope c₀ with
  | error complaints =>
    rw [hp] at hrun
    cases hrun
  | ok result =>
    rw [hp] at hrun
    cases hrun
    rfl

/-- A parser that is tried gives what it gives, or leaves the cursor where it is. -/
theorem attempt_spec_of {p : Parser α} {Q : α → Cursor → Prop}
    (h : Ensures c₀ p Q) :
    Ensures c₀ (attempt p) fun a? cursor => (∀ a, a? = some a → Q a cursor) ∧
      (a? = none → cursor = c₀) := by
  refine ensures_iff.2 ?_
  rintro scope a next hrun
  unfold attempt at hrun
  split at hrun
  · rename_i hp
    cases hrun
    refine ⟨?_, nofun⟩
    rintro _ ⟨⟩
    exact ensures_iff.1 h scope _ _ hp
  · cases hrun
    exact ⟨nofun, fun _ => rfl⟩

/-- A test for types moves nothing. -/
@[spec] theorem types?_spec : Reads c₀ types? := by
  mvcgen [types?]

/-- A test of a token moves nothing. -/
@[spec] theorem isIdentifier_spec (token : Token) : Reads c₀ (isIdentifier token) := by
  mvcgen [isIdentifier]

/-- A test for a name moves nothing. -/
@[spec] theorem atIdentifier?_spec : Reads c₀ atIdentifier? := by
  mvcgen [atIdentifier?, token, -token_spec]

section

variable [Source]

/-- Passing a punctuator that may be there goes on in the text. -/
@[spec] theorem eat?_spec (p : Punct) : Keeps c₀ (eat? p) := by
  refine keeps_of fun n => ?_
  mvcgen [eat?] with simp_all

/-- Passing a keyword that may be there goes on in the text. -/
@[spec] theorem eatKeyword?_spec (keyword : Keyword) : Keeps c₀ (eatKeyword? keyword) := by
  refine keeps_of fun n => ?_
  mvcgen [eatKeyword?] with simp_all

/-- Passing a punctuator goes on in the text. -/
@[spec] theorem expect_spec (p : Punct) : Keeps c₀ (expect p) := by
  refine keeps_of fun n => ?_
  mvcgen [expect] with simp_all

/-- Checking for a punctuator stays in the text. -/
@[spec] theorem expectHere_spec (p : Punct) : Keeps c₀ (expectHere p) := by
  refine keeps_of fun n => ?_
  mvcgen [expectHere] with simp_all

/-- Passing a keyword goes on in the text. -/
@[spec] theorem expectKeyword_spec (keyword : Keyword) : Keeps c₀ (expectKeyword keyword) := by
  refine keeps_of fun n => ?_
  mvcgen [expectKeyword] with simp_all

/-- A cursor is moved to a place of the text that is not before an offset. -/
theorem Kept.moveTo {n offset : Nat} {rest : List Char} (cursor : Cursor)
    (h : IsLeft Source.text offset rest) (hle : n ≤ offset) : Kept n (cursor.moveTo offset rest) :=
  ⟨.moveTo cursor h, hle⟩

/-- A token that is read anew as a punctuator does not move the cursor. -/
theorem Kept.narrow {n : Nat} {cursor : Cursor} {p : Punct} {rest : List Char}
    (h : Kept n cursor) (hhere : cursor.here = p.text.toList ++ rest) : Kept n (cursor.narrow p) :=
  ⟨h.on.narrow hhere, h.le⟩

/-- Completing an operator stays in the text. -/
@[spec] theorem widenGreater_spec : Keeps c₀ widenGreater := by
  refine keeps_of fun n => ?_
  mvcgen [widenGreater]
  · rename_i h _ _ _ _ hread _ hscan _
    exact Kept.narrow ⟨hread.1 ▸ h.1, (hread.1 ▸ h.2).ge⟩ (eq_append_of_scanPunct hscan)
  all_goals simp_all

/-- Splitting an operator stays in the text. -/
@[spec] theorem narrowLess_spec : Keeps c₀ narrowLess := by
  refine keeps_of fun n => ?_
  mvcgen [narrowLess]
  · rename_i h _ hshift _ _ hread _
    obtain ⟨rfl, rfl⟩ := hread
    have hhere := h.1.punct .shl (eq_of_beq hshift)
    exact Kept.narrow (p := .lt) ⟨h.1, h.2.ge⟩ hhere
  · simp_all

/-- Settling defaults stays in the text. -/
@[spec] theorem settleDefaults_spec (span : Span) : Keeps c₀ (settleDefaults span) := by
  refine ensures_iff.2 ?_
  rintro scope _ _ ⟨⟩ hon
  exact ⟨Cursor.on_mk.2 hon, le_rfl⟩

/-! ### Looking ahead and repetition -/

/-- What is tried is in order if it is there. -/
@[spec] theorem attempt_spec [HasMarkup α] {p : Parser α} (h : ∀ n, SoundFrom n p) :
    Sound c₀ (attempt p) := by
  refine ensures_iff.2 fun scope a? next hrun hon => ?_
  obtain ⟨hsome, hnone⟩ := ensures_iff.1 (attempt_spec_of (sound_of h)) scope a? next hrun
  cases a? with
  | none => simp_all
  | some a => simpa using hsome a rfl hon

/-- What holds of the first state, and of each state after a round, holds of the result. It may
speak of the end of the last token that was passed. -/
theorem iterate_spec {step : α → Parser (α ⊕ β)} {I : Nat → α → Prop} {J : Nat → β → Prop}
    (hstep : ∀ n state, I n state →
      ⦃fun _ cursor => ⌜cursor.On Source.text ∧ cursor.lastStop = n⌝⦄ step state
      ⦃⇓? next => fun _ cursor =>
        ⌜Kept n cursor ∧ Sum.elim (I cursor.lastStop) (J cursor.lastStop) next⌝⦄)
    (rounds n : Nat) (state : α) (hstate : I n state) :
    ⦃fun _ cursor => ⌜cursor.On Source.text ∧ cursor.lastStop = n⌝⦄ iterate step rounds state
    ⦃⇓? result => fun _ cursor => ⌜Kept n cursor ∧ J cursor.lastStop result⌝⦄ := by
  induction rounds generalizing n state with
  | zero => exact (failHere_spec _).triple
  | succ rounds ih =>
    rw [triple_iff]
    intro scope cursor hcursor result last hrun
    rw [iterate, Parser.bind_apply] at hrun
    cases hone : step state scope cursor with
    | error complaints =>
      rw [hone] at hrun
      cases hrun
    | ok after =>
      obtain ⟨next, cursor'⟩ := after
      rw [hone, ok_bind] at hrun
      obtain ⟨hkept, hnext⟩ :=
        triple_iff.mp (hstep n state hstate) scope cursor hcursor next cursor' hone
      -- The loop goes on from where the round left the cursor, or ends there.
      cases next with
      | inl state' =>
        obtain ⟨hlast, hresult⟩ := triple_iff.mp (ih cursor'.lastStop state' hnext) scope cursor'
          ⟨hkept.on, rfl⟩ result last hrun
        exact ⟨⟨hlast.on, hkept.le.trans hlast.le⟩, hresult⟩
      | inr result' =>
        cases hrun
        exact ⟨hkept, hnext⟩

/-- What each round of a loop keeps holds of its result. -/
theorem loop_invariant {start : α} {step : α → Parser (α ⊕ β)} (I : Nat → α → Prop)
    (J : Nat → β → Prop)
    (hstep : ∀ n state, I n state →
      ⦃fun _ cursor => ⌜cursor.On Source.text ∧ cursor.lastStop = n⌝⦄ step state
      ⦃⇓? next => fun _ cursor =>
        ⌜Kept n cursor ∧ Sum.elim (I cursor.lastStop) (J cursor.lastStop) next⌝⦄)
    {scope : Scope} {cursor last : Cursor} {result : β}
    (hrun : loop start step scope cursor = .ok (result, last)) (hon : cursor.On Source.text)
    (hstart : I cursor.lastStop start) : Kept cursor.lastStop last ∧ J last.lastStop result :=
  triple_iff.mp (iterate_spec hstep _ _ start hstart) scope cursor ⟨hon, rfl⟩ result last hrun

/-- Each round of a loop gives a result in order, so the loop does. -/
@[spec] theorem loop_spec [HasMarkup α] [HasMarkup β] {start : α} {step : α → Parser (α ⊕ β)}
    (hstep : ∀ n state, ⦃fun _ cursor => ⌜cursor.On Source.text ∧ cursor.lastStop = n ∧
        Opened state ∧ reach state ≤ n⌝⦄ step state
      ⦃⇓? next => fun _ cursor => ⌜Given n next cursor⌝⦄) :
    Ensures c₀ (loop start step) fun result cursor => c₀.On Source.text → Opened start →
      reach start ≤ c₀.lastStop → Given c₀.lastStop result cursor := by
  have hround : ∀ n state, Opened state ∧ reach state ≤ n →
      ⦃fun _ cursor => ⌜cursor.On Source.text ∧ cursor.lastStop = n⌝⦄ step state
      ⦃⇓? next => fun _ cursor => ⌜Kept n cursor ∧ Sum.elim
        (fun state => Opened state ∧ reach state ≤ cursor.lastStop)
        (fun result => Opened result ∧ reach result ≤ cursor.lastStop) next⌝⦄ := by
    intro n state hstate
    rw [triple_iff]
    intro scope cursor hcursor next last hrun
    have hgiven := triple_iff.mp (hstep n state) scope cursor ⟨hcursor.1, hcursor.2, hstate⟩ next
      last hrun
    cases next <;> exact ⟨hgiven.toKept, hgiven.opened, hgiven.reach_le⟩
  refine ensures_iff.2 ?_
  rintro scope result last hrun hon hopened hreach
  obtain ⟨hkept, hresult⟩ := loop_invariant (fun n state => Opened state ∧ reach state ≤ n)
    (fun n result => Opened result ∧ reach result ≤ n) hround hrun hon ⟨hopened, hreach⟩
  exact ⟨hkept, hresult.1, hresult.2⟩

/-- What a parser of parts of a construct does, where it does not matter where a part starts. -/
abbrev GivesFrom {α : Type} [HasMarkup α] (n : Nat) (p : Parser α) : Prop :=
  ⦃fun _ cursor => ⌜cursor.On Source.text ∧ cursor.lastStop = n⌝⦄ p
  ⦃⇓? a => fun _ cursor => ⌜Given n a cursor⌝⦄

/-- What is said of the end of the last token before a cursor is said of the cursor. -/
theorem gives_of [HasMarkup α] (c₀ : Cursor) {p : Parser α} (h : ∀ n, GivesFrom n p) :
    Ensures c₀ p fun a cursor => c₀.On Source.text → Given c₀.lastStop a cursor :=
  ensures_iff.2 fun scope a next hrun hon =>
    triple_iff.1 (h c₀.lastStop) scope c₀ ⟨hon, rfl⟩ a next hrun

/-- What is repeated is in order. -/
@[spec] theorem many_spec [HasMarkup α] {goesOn : Parser Bool} {item : Parser α}
    (hgoesOn : ∀ n, KeepsFrom n goesOn) (hitem : ∀ n, GivesFrom n item) :
    Sound c₀ (many goesOn item) := by
  have hgoesOn : ∀ c₀, Keeps c₀ goesOn := fun _ => keeps_of hgoesOn
  have hitem := fun c₀ => gives_of c₀ hitem
  refine sound_of fun n => ?_
  mvcgen [many, hgoesOn, hitem] with (simp_all <;> omega)

/-- The items of a list are in order. -/
@[spec] theorem listUntil_spec [HasMarkup α] {closing : Punct} {item : Parser α}
    (hitem : ∀ n, GivesFrom n item) : Sound c₀ (listUntil closing item) := by
  have hitem := fun c₀ => gives_of c₀ hitem
  refine sound_of fun n => ?_
  mvcgen [listUntil, hitem] with (simp_all +zetaDelta <;> omega)

attribute [spec] bracketed inFunction inArrowHead inArrowBody inBody

/-! ### Names -/

attribute [local simp] Expr.layout Item.layouts Property.layouts Body.layouts Stmt.layout
  Expr.IsSpelled Item.IsSpelled Property.IsSpelled Body.IsSpelled Stmt.IsSpelled

/-- The name of a variable is in order. -/
@[spec] theorem identifier_spec : Sound c₀ identifier := by
  refine sound_of fun n => ?_
  mvcgen [identifier] with simp_all

/-- A word is spelled in the text. -/
@[spec] theorem anyWord_spec :
    Ensures c₀ anyWord fun name cursor => c₀.On Source.text → Kept c₀.lastStop cursor ∧
      Spelled Source.text name := by
  mvcgen [anyWord] with simp_all

/-- The end of a statement stays in the text. -/
@[spec] theorem semicolon_spec : Keeps c₀ semicolon := by
  refine keeps_of fun n => ?_
  mvcgen [semicolon] with simp_all

end

end

/-! ## The rules for parts of constructs -/

/-- What is asked of the rules for the parts of a construct. Parameters end where the last token
does, and markup is looked for only at an angle bracket. -/
structure Rules.Sound [Source] (r : Rules) : Prop where
  assignment : ∀ {c₀}, Grammar.Sound c₀ r.assignment
  binary : ∀ {c₀} level, Grammar.Sound c₀ (r.binary level)
  unary : ∀ {c₀}, Grammar.Sound c₀ r.unary
  leftHandSide : ∀ {c₀}, Grammar.Sound c₀ r.leftHandSide
  callee : ∀ {c₀}, Grammar.Sound c₀ r.callee
  binding : ∀ {c₀}, Grammar.Sound c₀ r.binding
  type : ∀ {c₀}, Keeps c₀ r.type
  params : ∀ {c₀}, Ensures c₀ r.params fun a cursor => c₀.On Source.text →
    Given c₀.lastStop a cursor ∧ a.1.stop = cursor.lastStop
  classLike : ∀ {c₀}, Grammar.Sound c₀ r.classLike
  statement : ∀ {c₀}, Grammar.Sound c₀ r.statement
  markup : ∀ {c₀}, Ensures c₀ r.markup fun m cursor => c₀.On Source.text →
    c₀.token.kind = .punct .lt → Given c₀.lastStop m cursor ∧ Starts c₀.lastStop m

attribute [spec] Rules.Sound.assignment Rules.Sound.binary Rules.Sound.unary
  Rules.Sound.leftHandSide Rules.Sound.callee Rules.Sound.binding Rules.Sound.type
  Rules.Sound.params Rules.Sound.classLike Rules.Sound.statement Rules.Sound.markup

namespace Rules

attribute [local simp] Expr.layout Item.layouts Property.layouts Body.layouts Stmt.layout
  Expr.IsSpelled Item.IsSpelled Property.IsSpelled Body.IsSpelled Stmt.IsSpelled

variable [Source] {c₀ : Cursor} {r : Rules} (hr : r.Sound)
include hr

/-- An expression with commas is in order. -/
@[spec] theorem expression_spec : Grammar.Sound c₀ r.expression := by
  refine sound_of fun n => ?_
  mvcgen [expression] with (simp_all <;> omega)

/-- An expression in brackets is in order. -/
@[spec] theorem inner_spec : Grammar.Sound c₀ r.inner := by
  refine sound_of fun n => ?_
  mvcgen [inner] with simp_all

/-- An expression without commas in brackets is in order. -/
@[spec] theorem innerItem_spec : Grammar.Sound c₀ r.innerItem := by
  refine sound_of fun n => ?_
  mvcgen [innerItem] with simp_all

/-- A type after a colon goes on in the text. -/
@[spec] theorem annotation_spec : Keeps c₀ r.annotation := by
  refine keeps_of fun n => ?_
  mvcgen [ annotation] with (simp_all <;> omega)

/-- An initializer is in order. -/
@[spec] theorem initializer_spec : Grammar.Sound c₀ r.initializer := by
  refine sound_of fun n => ?_
  mvcgen [initializer] with (simp_all <;> omega)

/-- An item is in order. -/
@[spec] theorem item_spec : Grammar.Sound c₀ r.item := by
  refine sound_of fun n => ?_
  mvcgen [item] with (simp_all; omega)

/-- Arguments are in order. -/
@[spec] theorem arguments_spec : Grammar.Sound c₀ r.arguments := by
  refine sound_of fun n => ?_
  mvcgen [arguments] with (simp_all <;> omega)

/-- The name of a property is in order. -/
@[spec] theorem propertyName_spec : Grammar.Sound c₀ r.propertyName := by
  refine sound_of fun n => ?_
  mvcgen [propertyName] with (simp_all [Spelled.hash] <;> omega)

/-- The statements of a body are in order. -/
@[spec] theorem bodyStatements_spec : Grammar.Sound c₀ r.bodyStatements := by
  refine sound_of fun n => ?_
  mvcgen [bodyStatements] with simp_all +zetaDelta
  · -- A string literal is a directive or a statement.
    split <;> simp_all <;> omega
  · omega

/-- A block is in order. -/
@[spec] theorem block_spec : Grammar.Sound c₀ r.block := by
  refine sound_of fun n => ?_
  mvcgen [block] with (simp_all <;> omega)

/-- The body of a function is in order. -/
@[spec] theorem functionBody_spec : Grammar.Sound c₀ r.functionBody := by
  refine sound_of fun n => ?_
  mvcgen [functionBody] with (simp_all; omega)

/-- Decorators are in order. -/
@[spec] theorem decorators_spec : Grammar.Sound c₀ r.decorators := by
  refine sound_of fun n => ?_
  mvcgen [decorators] with (simp_all <;> omega)

end Rules

end Grammar
end MarkupCompiler
