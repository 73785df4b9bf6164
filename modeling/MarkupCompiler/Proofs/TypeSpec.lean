import Mathlib
import MarkupCompiler.Proofs.ParserSpec

/-!
# What the parsers of types leave

Nothing is kept of types, so what matters is that their parsers leave the cursor standing in the
text.
-/

namespace MarkupCompiler.Grammar

open Std.Do Syntax Text

set_option mvcgen.warning false

variable [Source] {c₀ : Cursor}

/-- A parser goes on in the text if its span is asked for. -/
@[spec] theorem spanOf_spec {p : Parser Unit} (hp : ∀ n, KeepsFrom n p) : Keeps c₀ (spanOf p) := by
  have hp : ∀ c₀, Keeps c₀ p := fun _ => keeps_of hp
  refine keeps_of fun n => ?_
  mvcgen [spanOf, hp] with simp_all

/-- A loop over what is left of the text, from an offset on. -/
theorem loop_spec_isLeft {start : Nat × List Char}
    {step : Nat × List Char → Parser ((Nat × List Char) ⊕ Unit)}
    (hstep : ∀ n state, ⦃fun _ cursor => ⌜cursor.On Source.text ∧ cursor.lastStop = n ∧
        IsLeft Source.text state.1 state.2 ∧ n ≤ state.1⌝⦄ step state
      ⦃⇓? next => fun _ cursor => ⌜Kept n cursor ∧ ∀ state, next = .inl state →
        IsLeft Source.text state.1 state.2 ∧ cursor.lastStop ≤ state.1⌝⦄) :
    Ensures c₀ (loop start step) fun _ cursor => c₀.On Source.text →
      IsLeft Source.text start.1 start.2 → c₀.lastStop ≤ start.1 → Kept c₀.lastStop cursor := by
  have hround : ∀ n (state : Nat × List Char), IsLeft Source.text state.1 state.2 ∧ n ≤ state.1 →
      ⦃fun _ cursor => ⌜cursor.On Source.text ∧ cursor.lastStop = n⌝⦄ step state
      ⦃⇓? next => fun _ cursor => ⌜Kept n cursor ∧ Sum.elim
        (fun state => IsLeft Source.text state.1 state.2 ∧ cursor.lastStop ≤ state.1)
        (fun _ => True) next⌝⦄ := by
    intro n state hstate
    rw [triple_iff]
    intro scope cursor hcursor next last hrun
    obtain ⟨hkept, hnext⟩ := triple_iff.mp (hstep n state) scope cursor
      ⟨hcursor.1, hcursor.2, hstate⟩ next last hrun
    cases next with
    | inl state => exact ⟨hkept, hnext state rfl⟩
    | inr result => exact ⟨hkept, trivial⟩
  refine ensures_iff.2 ?_
  rintro scope result last hrun hon hleft hle
  have hloop := loop_invariant
    (fun n (state : Nat × List Char) => IsLeft Source.text state.1 state.2 ∧ n ≤ state.1)
    (fun _ _ => True) hround hrun hon ⟨hleft, hle⟩
  exact hloop.1

namespace Rules

variable {r : Rules} (hr : r.Sound)

omit [Source] in
/-- Looking for a mapped type moves nothing. -/
@[spec] theorem startsMappedType_spec : Reads c₀ startsMappedType := lookAhead_spec _

omit [Source] in
/-- Looking for parameters moves nothing. -/
@[spec] theorem startsParameters_spec : Reads c₀ r.startsParameters := lookAhead_spec _

/-- A sign before a modifier goes on in the text. -/
@[spec] theorem modifierSign_spec : Keeps c₀ modifierSign := by
  refine keeps_of fun n => ?_
  mvcgen [modifierSign] with (simp_all <;> omega)

/-- Looking for a function type stays in the text. -/
@[spec] theorem startsFunctionType_spec : Keeps c₀ r.startsFunctionType := by
  refine keeps_of fun n => ?_
  mvcgen [startsFunctionType] with simp_all

include hr

/-- Type arguments go on in the text. -/
@[spec] theorem typeArguments_spec : Keeps c₀ r.typeArguments := by
  refine keeps_of fun n => ?_
  mvcgen [typeArguments] with (simp_all <;> omega)

/-- Type arguments that may be there go on in the text. -/
@[spec] theorem typeArguments?_spec : Keeps c₀ r.typeArguments? := by
  refine keeps_of fun n => ?_
  mvcgen [typeArguments?] with simp_all

/-- A type parameter goes on in the text. -/
@[spec] theorem typeParameter_spec : Keeps c₀ r.typeParameter := by
  refine keeps_of fun n => ?_
  mvcgen [typeParameter] with (simp_all <;> omega)

/-- Type parameters go on in the text. -/
@[spec] theorem typeParameters_spec : Keeps c₀ r.typeParameters := by
  refine keeps_of fun n => ?_
  mvcgen [typeParameters] with (simp_all <;> omega)

/-- The type of a result goes on in the text. -/
@[spec] theorem returnType_spec : Keeps c₀ r.returnType := by
  refine keeps_of fun n => ?_
  mvcgen [returnType] with (simp_all <;> omega)

/-- The type of a result after a colon goes on in the text. -/
@[spec] theorem returnAnnotation_spec : Keeps c₀ r.returnAnnotation := by
  refine keeps_of fun n => ?_
  mvcgen [ returnAnnotation] with (simp_all <;> omega)

/-- A function type goes on in the text. -/
@[spec] theorem functionType_spec : Keeps c₀ r.functionType := by
  refine keeps_of fun n => ?_
  mvcgen [functionType] with (simp_all <;> omega)

/-- A dotted name goes on in the text. -/
@[spec] theorem namedType_spec : Keeps c₀ r.namedType := by
  refine keeps_of fun n => ?_
  mvcgen [namedType] with (simp_all <;> omega)

/-- A type of another module goes on in the text. -/
@[spec] theorem importType_spec : Keeps c₀ r.importType := by
  refine keeps_of fun n => ?_
  mvcgen [importType] with (simp_all <;> omega)

/-- An element of a tuple type goes on in the text. -/
@[spec] theorem tupleElement_spec : Keeps c₀ r.tupleElement := by
  refine keeps_of fun n => ?_
  mvcgen [tupleElement] with (simp_all; omega)

/-- A mapped type goes on in the text. -/
@[spec] theorem mappedType_spec : Keeps c₀ r.mappedType := by
  refine keeps_of fun n => ?_
  mvcgen [mappedType] with (simp_all; omega)

/-- A signature goes on in the text. -/
@[spec] theorem signature_spec : Keeps c₀ r.signature := by
  refine keeps_of fun n => ?_
  mvcgen [signature] with (simp_all <;> omega)

/-- A member of an object type goes on in the text. -/
@[spec] theorem typeMember_spec : Keeps c₀ r.typeMember := by
  refine keeps_of fun n => ?_
  mvcgen [typeMember] with (simp_all <;> omega)

/-- An object type goes on in the text. -/
@[spec] theorem objectType_spec : Keeps c₀ r.objectType := by
  refine keeps_of fun n => ?_
  mvcgen [objectType] with (simp_all <;> omega)

/-- A template literal type is read from the text after its backquote on. -/
@[spec] theorem templateType_spec :
    Ensures c₀ r.templateType fun _ cursor => c₀.On Source.text →
      c₀.token.kind = .punct .backquote → Kept c₀.lastStop cursor := by
  refine triple_imp fun hon => triple_imp fun hkind => ?_
  mvcgen [templateType, -loop_spec, loop_spec_isLeft]
  · exact False.elim
  · rename_i scan hscan hlast _ cursor h _
    have hleft := scan.stop_of_isLast hlast _ ▸ isLeft_scanTemplate hscan h.2.2.1
    exact ⟨.moveTo cursor hleft (by omega), nofun⟩
  · rename_i n state scan hscan hlast _ before h _ _ _ _ htype _ _ cursor hbrace
    have hleft := scan.stop_of_not_isLast hlast _ ▸ isLeft_scanTemplate hscan h.2.2.1
    have hmoved : Kept n (before.moveTo (state.1 + scan.bytes + 2) scan.rest) :=
      .moveTo before hleft (by omega)
    have htyped := htype hmoved.on
    have hkept := hbrace htyped.on
    refine ⟨⟨hkept.on, hmoved.le.trans (htyped.le.trans hkept.le)⟩, ?_⟩
    rintro _ ⟨⟩
    exact ⟨hkept.on.after, hkept.on.order.1.trans hkept.on.order.2⟩
  · rename_i h _ _ cursor hread _ _ _
    obtain ⟨rfl, rfl, -⟩ := hread
    subst h
    intro hloop
    have hhere := hon.punct .backquote hkind
    exact hloop hon ((hhere ▸ hon.here).append ['`']) (Nat.le_succ_of_le hon.order.1)

/-- A type without operators goes on in the text. -/
@[spec] theorem plainType_spec : Keeps c₀ r.plainType := by
  refine keeps_of fun n => ?_
  mvcgen [plainType] with (simp_all <;> omega)

/-- A type with brackets goes on in the text. -/
@[spec] theorem postfixType_spec : Keeps c₀ r.postfixType := by
  refine keeps_of fun n => ?_
  mvcgen [postfixType] with (simp_all <;> omega)

/-- A type with operators before it goes on in the text. -/
@[spec] theorem operatorType_spec : Keeps c₀ r.operatorType := by
  refine keeps_of fun n => ?_
  mvcgen [operatorType] with (simp_all <;> omega)

/-- Types joined by `&` go on in the text. -/
@[spec] theorem intersectionType_spec : Keeps c₀ r.intersectionType := by
  refine keeps_of fun n => ?_
  mvcgen [intersectionType] with (simp_all <;> omega)

/-- Types joined by `|` go on in the text. -/
@[spec] theorem unionType_spec : Keeps c₀ r.unionType := by
  refine keeps_of fun n => ?_
  mvcgen [unionType] with (simp_all <;> omega)

/-- Every type goes on in the text. -/
@[spec] theorem anyType_spec : Keeps c₀ r.anyType := by
  refine keeps_of fun n => ?_
  mvcgen [anyType] with (simp_all <;> omega)

end Rules

end MarkupCompiler.Grammar
