import Mathlib
import MarkupCompiler.Proofs.ExpressionSpec
import MarkupCompiler.Proofs.MarkupSpec

/-!
# What the parsers of statements and modules leave and give

The rules are tied together by the depth to which constructs nest, so what is asked of them holds by
induction on it (`Rules.bounded_sound`). A module that is read is in order (`opened_of_parse`): all
markup in it opens a tag of its text (`opensTag_of_isMarkup`).
-/

namespace MarkupCompiler.Grammar

open Std.Do Syntax Text

set_option mvcgen.warning false

attribute [local simp] Expr.layout Stmt.layout Expr.IsSpelled Stmt.IsSpelled

/-! ## Declarations -/

instance : HasMarkup Declarator where
  layouts d := HasMarkup.layouts d.target ++ HasMarkup.layouts d.value
  spelled text d := HasMarkup.spelled text d.target ∧ HasMarkup.spelled text d.value
  starts _ _ := True

instance : HasMarkup Module where
  layouts m := HasMarkup.layouts m.statements
  spelled text m := HasMarkup.spelled text m.statements
  starts _ _ := True

variable [Source] {c₀ : Cursor}

/-- What is known of a declaration of one variable. -/
@[simp] theorem result_declarator {d : Declarator} :
    (Opened d ↔ Opened d.target ∧ Opened d.value) ∧ reach d = max (reach d.target) (reach d.value) ∧
      ∀ offset, Starts offset d := by
  refine ⟨?_, Layout.reachOf_append _ _, fun _ => trivial⟩
  show Layout.AllOpened _ (_ ++ _) ∧ _ ∧ _ ↔ _
  rw [Layout.allOpened_append, and_and_and_comm]
  rfl

/-- What is known of declarations is known of their parts. -/
@[simp] theorem result_declaratorParts {ds : List Declarator} :
    (Opened (declaratorParts ds) ↔ Opened ds) ∧ reach (declaratorParts ds) = reach ds := by
  induction ds with
  | nil => simp [declaratorParts]
  | cons d ds ih =>
    rw [declaratorParts, List.flatMap_cons, ← declaratorParts]
    simp [Declarator.parts, ih, and_assoc]

/-- No markup stands in names. -/
@[simp] theorem result_names {names : List String} : Opened names ∧ reach names = 0 := by
  induction names with
  | nil => simp
  | cons name names ih => simp [ih]

/-- No markup stands in a name that may be there. -/
@[simp] theorem result_name? {name : Option String} :
    Opened name ∧ reach name = 0 ∧ ∀ offset, Starts offset name := by
  cases name <;> simp

/-- A test of a token stays in the text. -/
@[spec] theorem isNameOnLine_spec (token : Token) : Keeps c₀ (isNameOnLine token) := by
  refine keeps_of fun n => ?_
  mvcgen [isNameOnLine] with simp_all

/-- A test for a declaration stays in the text. -/
@[spec] theorem variableWords_spec : Keeps c₀ variableWords := by
  refine keeps_of fun n => ?_
  mvcgen [variableWords] with simp_all

/-- A test for a name stays in the text. -/
@[spec] theorem nameHere?_spec : Keeps c₀ Rules.nameHere? := by
  refine keeps_of fun n => ?_
  mvcgen [Rules.nameHere?] with simp_all

namespace Rules

variable {r : Rules} (hr : r.Sound)
include hr

/-- A variable is in order. -/
@[spec] theorem declarator_spec (isConst inHead : Bool) :
    Grammar.Sound c₀ (r.declarator isConst inHead) := by
  refine sound_of fun n => ?_
  mvcgen [declarator]
  case vc4 | vc8 =>
    rename_i hbroken _ _ _ _
    clear hbroken
    simp_all
    omega
  all_goals (simp_all; omega)

/-- Variables are in order. -/
@[spec] theorem declarators_spec (isConst inHead : Bool) :
    Grammar.Sound c₀ (r.declarators isConst inHead) := by
  refine sound_of fun n => ?_
  mvcgen [declarators] with (simp_all <;> omega)

/-- Variables after their words are in order. -/
@[spec] theorem declarations_spec (words : Nat) (inHead : Bool) :
    Grammar.Sound c₀ (r.declarations words inHead) := by
  refine sound_of fun n => ?_
  mvcgen [declarations] with (simp_all <;> omega)

/-- A declaration of variables is in order. -/
@[spec] theorem variableStatement_spec (words : Nat) :
    Grammar.Sound c₀ (r.variableStatement words) := by
  refine sound_of fun n => ?_
  mvcgen [variableStatement] with (simp_all; omega)

/-- A declaration of a function is in order. -/
@[spec] theorem functionStatement_spec (needsName : Bool) :
    Grammar.Sound c₀ (r.functionStatement needsName) := by
  refine sound_of fun n => ?_
  mvcgen [functionStatement] with (simp_all; omega)

/-- A declaration of a class is in order. -/
@[spec] theorem classStatement_spec (needsName : Bool) :
    Grammar.Sound c₀ (r.classStatement needsName) := by
  refine sound_of fun n => ?_
  mvcgen [classStatement] with (simp_all; omega)

/-- An interface is in order. -/
@[spec] theorem interfaceStatement_spec : Grammar.Sound c₀ r.interfaceStatement := by
  refine sound_of fun n => ?_
  mvcgen [interfaceStatement] with (simp_all <;> omega)

/-- A name for a type is in order. -/
@[spec] theorem aliasStatement_spec : Grammar.Sound c₀ r.aliasStatement := by
  refine sound_of fun n => ?_
  mvcgen [aliasStatement] with (simp_all; omega)

/-- A member of an enumeration is in order. -/
@[spec] theorem enumMember_spec : Grammar.Sound c₀ r.enumMember := by
  refine sound_of fun n => ?_
  mvcgen [enumMember] with (simp_all; omega)

/-- An enumeration is in order. -/
@[spec] theorem enumStatement_spec : Grammar.Sound c₀ r.enumStatement := by
  refine sound_of fun n => ?_
  mvcgen [enumStatement] with (simp_all <;> omega)

/-- A namespace is in order. -/
@[spec] theorem namespaceStatement_spec : Grammar.Sound c₀ r.namespaceStatement := by
  refine sound_of fun n => ?_
  mvcgen [namespaceStatement] with (simp_all <;> omega)

/-- A declaration of types alone is in order. -/
@[spec] theorem ambientStatement_spec : Grammar.Sound c₀ r.ambientStatement := by
  refine sound_of fun n => ?_
  mvcgen [ambientStatement] with (simp_all; omega)

/-- A declaration of types is in order if it is there. -/
@[spec] theorem typeDeclaration?_spec : Grammar.Sound c₀ r.typeDeclaration? := by
  refine sound_of fun n => ?_
  mvcgen [typeDeclaration?] with (simp_all <;> omega)

end Rules

/-! ## Imports and exports -/

/-- A string literal goes on in the text. -/
@[spec] theorem stringToken_spec : Keeps c₀ stringToken := by
  refine keeps_of fun n => ?_
  mvcgen [stringToken] with simp_all

/-- A name that modules exchange goes on in the text. -/
@[spec] theorem exchangedName_spec : Keeps c₀ exchangedName := by
  refine keeps_of fun n => ?_
  mvcgen [exchangedName] with simp_all

/-- Keeping a name stays in the text. -/
@[spec] theorem exportName_spec (name : String) (offset : Nat) :
    Keeps c₀ (exportName name offset) := by
  refine ensures_iff.2 ?_
  rintro scope _ _ ⟨⟩ hon
  exact ⟨Cursor.on_mk.2 hon, le_rfl⟩

/-- Keeping names stays in the text. -/
@[spec] theorem exportNames_spec (names : List String) (offset : Nat) :
    Keeps c₀ (names.forM fun name => exportName name offset) := by
  induction names generalizing c₀ with
  | nil =>
    refine keeps_of fun n => ?_
    mvcgen [List.forM]
    simp_all
  | cons name names ih =>
    refine keeps_of fun n => ?_
    mvcgen [List.forM, ih]
    simp_all
    omega

omit [Source] in
/-- A test for the word `type` moves nothing. -/
@[spec] theorem marksType_spec : Reads c₀ marksType := lookAhead_spec _

/-- An entry of an import goes on in the text. -/
@[spec] theorem importEntry_spec : Keeps c₀ importEntry := by
  refine keeps_of fun n => ?_
  mvcgen [importEntry] with (simp_all <;> omega)

/-- An entry of an export goes on in the text. -/
@[spec] theorem exportEntry_spec : Keeps c₀ exportEntry := by
  refine keeps_of fun n => ?_
  mvcgen [exportEntry] with (simp_all; omega)

namespace Rules

/-- A word that marks an import goes on in the text. -/
@[spec] theorem importMark_spec : Keeps c₀ importMark := by
  refine keeps_of fun n => ?_
  mvcgen [importMark] with simp_all

/-- Imported names go on in the text. -/
@[spec] theorem importedNames_spec : Keeps c₀ importedNames := by
  refine keeps_of fun n => ?_
  mvcgen [importedNames] with (simp_all <;> omega)

/-- A test for a function stays in the text. -/
@[spec] theorem atFunction?_spec : Keeps c₀ atFunction? := by
  refine keeps_of fun n => ?_
  mvcgen [atFunction?] with simp_all

variable {r : Rules} (hr : r.Sound)
include hr

/-- The attributes of an import go on in the text. -/
@[spec] theorem importAttributes_spec : Keeps c₀ r.importAttributes := by
  refine keeps_of fun n => ?_
  mvcgen [importAttributes] with (simp_all <;> omega)

/-- The module of an import goes on in the text. -/
@[spec] theorem fromModule_spec : Keeps c₀ r.fromModule := by
  refine keeps_of fun n => ?_
  mvcgen [fromModule] with (simp_all; omega)

/-- An import that names something goes on in the text. -/
@[spec] theorem importAlias_spec : Keeps c₀ r.importAlias := by
  refine keeps_of fun n => ?_
  mvcgen [importAlias] with (simp_all; omega)

/-- The names of an import go on in the text. -/
@[spec] theorem importClause_spec : Keeps c₀ r.importClause := by
  refine keeps_of fun n => ?_
  mvcgen [importClause] with (simp_all <;> omega)

/-- An import is in order. -/
@[spec] theorem importStatement_spec : Grammar.Sound c₀ r.importStatement := by
  refine sound_of fun n => ?_
  mvcgen [importStatement] with (simp_all; omega)

/-- A default export is in order. -/
@[spec] theorem defaultExport_spec : Grammar.Sound c₀ r.defaultExport := by
  refine sound_of fun n => ?_
  mvcgen [defaultExport] with (simp_all; omega)

/-- An exported declaration is in order. -/
@[spec] theorem exportedDeclaration_spec : Grammar.Sound c₀ r.exportedDeclaration := by
  refine sound_of fun n => ?_
  mvcgen [exportedDeclaration] with (simp_all <;> omega)

/-- Exported names in braces go on in the text. -/
@[spec] theorem exportNames_spec : Keeps c₀ r.exportNames := by
  refine keeps_of fun n => ?_
  mvcgen [exportNames] with (simp_all <;> omega)

/-- An export of everything goes on in the text. -/
@[spec] theorem exportAll_spec : Keeps c₀ r.exportAll := by
  refine keeps_of fun n => ?_
  mvcgen [exportAll] with (simp_all <;> omega)

/-- An export is in order. -/
@[spec] theorem exportStatement_spec : Grammar.Sound c₀ r.exportStatement := by
  refine sound_of fun n => ?_
  mvcgen [exportStatement] with (simp_all; omega)

end Rules

/-! ## Statements -/

/-- A test for the end of a statement stays in the text. -/
@[spec] theorem atEnd?_spec : Keeps c₀ atEnd? := by
  refine keeps_of fun n => ?_
  mvcgen [atEnd?] with simp_all

namespace Rules

/-- A test for the end of a case stays in the text. -/
@[spec] theorem inCase?_spec : Keeps c₀ inCase? := by
  refine keeps_of fun n => ?_
  mvcgen [inCase?] with simp_all

/-- A jump is in order. -/
@[spec] theorem jumpStatement_spec : Grammar.Sound c₀ jumpStatement := by
  refine sound_of fun n => ?_
  mvcgen [jumpStatement] with (simp_all; omega)

/-- A statement without parts is in order. -/
@[spec] theorem plainStatement_spec : Grammar.Sound c₀ plainStatement := by
  refine sound_of fun n => ?_
  mvcgen [plainStatement] with (simp_all; omega)

/-- A semicolon alone is in order. -/
@[spec] theorem emptyStatement_spec : Grammar.Sound c₀ emptyStatement := by
  refine sound_of fun n => ?_
  mvcgen [emptyStatement] with simp_all

variable {r : Rules} (hr : r.Sound)
include hr

/-- A condition is in order. -/
@[spec] theorem condition_spec : Grammar.Sound c₀ r.condition := by
  refine sound_of fun n => ?_
  mvcgen [condition] with (simp_all; omega)

/-- A statement that another governs is in order. -/
@[spec] theorem single_spec : Grammar.Sound c₀ r.single := by
  refine sound_of fun n => ?_
  mvcgen [single] with (simp_all <;> omega)

/-- A conditional statement is in order. -/
@[spec] theorem ifStatement_spec : Grammar.Sound c₀ r.ifStatement := by
  refine sound_of fun n => ?_
  mvcgen [ifStatement] with (simp_all; omega)

/-- A loop with its condition first is in order. -/
@[spec] theorem whileStatement_spec : Grammar.Sound c₀ r.whileStatement := by
  refine sound_of fun n => ?_
  mvcgen [whileStatement] with (simp_all; omega)

/-- A loop with its condition last is in order. -/
@[spec] theorem doStatement_spec : Grammar.Sound c₀ r.doStatement := by
  refine sound_of fun n => ?_
  mvcgen [doStatement] with (simp_all; omega)

/-- The head of a loop over parts is in order. -/
@[spec] theorem loopRange_spec : Grammar.Sound c₀ r.loopRange := by
  refine sound_of fun n => ?_
  mvcgen [loopRange] with (simp_all; omega)

/-- A part of the head of a loop is in order. -/
@[spec] theorem optionalPart_spec (closing : Punct) :
    Grammar.Sound c₀ (r.optionalPart closing) := by
  refine sound_of fun n => ?_
  mvcgen [optionalPart] with simp_all

/-- The head of a counting loop is in order. -/
@[spec] theorem loopSteps_spec : Grammar.Sound c₀ r.loopSteps := by
  refine sound_of fun n => ?_
  mvcgen [loopSteps] with (simp_all; omega)

/-- The head of a loop is in order. -/
@[spec] theorem loopHead_spec (isAwait : Bool) : Grammar.Sound c₀ (r.loopHead isAwait) := by
  refine sound_of fun n => ?_
  mvcgen [loopHead] with (simp_all <;> omega)

/-- A `for` loop is in order. -/
@[spec] theorem forStatement_spec : Grammar.Sound c₀ r.forStatement := by
  refine sound_of fun n => ?_
  mvcgen [forStatement] with (simp_all; omega)

/-- A case is in order. -/
@[spec] theorem switchCase_spec : Grammar.Sound c₀ r.switchCase := by
  refine sound_of fun n => ?_
  mvcgen [switchCase] with (simp_all <;> omega)

/-- A `switch` statement is in order. -/
@[spec] theorem switchStatement_spec : Grammar.Sound c₀ r.switchStatement := by
  refine sound_of fun n => ?_
  mvcgen [switchStatement] with (simp_all <;> omega)

/-- A `try` statement is in order. -/
@[spec] theorem tryStatement_spec : Grammar.Sound c₀ r.tryStatement := by
  refine sound_of fun n => ?_
  mvcgen [tryStatement] with (simp_all; omega)

/-- A `return` statement is in order. -/
@[spec] theorem returnStatement_spec : Grammar.Sound c₀ r.returnStatement := by
  refine sound_of fun n => ?_
  mvcgen [returnStatement] with (simp_all; omega)

/-- A `throw` statement is in order. -/
@[spec] theorem throwStatement_spec : Grammar.Sound c₀ r.throwStatement := by
  refine sound_of fun n => ?_
  mvcgen [throwStatement] with (simp_all; omega)

/-- A statement with a label is in order. -/
@[spec] theorem labelled_spec : Grammar.Sound c₀ r.labelled := by
  refine sound_of fun n => ?_
  mvcgen [labelled] with (simp_all; omega)

/-- An expression as a statement is in order. -/
@[spec] theorem expressionStatement_spec : Grammar.Sound c₀ r.expressionStatement := by
  refine sound_of fun n => ?_
  mvcgen [expressionStatement] with (simp_all; omega)

/-- A statement after decorators is in order. -/
@[spec] theorem decoratedStatement_spec : Grammar.Sound c₀ r.decoratedStatement := by
  refine sound_of fun n => ?_
  mvcgen [decoratedStatement] with (simp_all; omega)

/-- A statement that begins with a name or an expression is in order. -/
@[spec] theorem otherStatement_spec : Grammar.Sound c₀ r.otherStatement := by
  refine sound_of fun n => ?_
  mvcgen [otherStatement] with (simp_all <;> omega)

/-- Every statement is in order. -/
@[spec] theorem anyStatement_spec : Grammar.Sound c₀ r.anyStatement := by
  refine sound_of fun n => ?_
  mvcgen [anyStatement] with simp_all

end Rules

/-! ## Modules -/

/-- What is known of a module. -/
@[simp] theorem result_module {m : Module} :
    (Opened m ↔ Opened m.statements) ∧ reach m = reach m.statements ∧ ∀ offset, Starts offset m :=
  ⟨Iff.rfl, rfl, fun _ => trivial⟩

namespace Rules

/-- The rules keep what is asked of them, whatever the depth to which constructs nest. -/
theorem bounded_sound (depth : Nat) : (bounded depth).Sound := by
  induction depth with
  | zero => constructor <;> intros <;> exact (failHere_spec _).triple
  | succ depth ih =>
    exact
      { assignment := assigned_spec ih
        binary := operation_spec ih
        unary := prefixed_spec ih
        leftHandSide := memberOrCall_spec ih
        callee := constructed_spec ih
        binding := bindingTarget_spec ih
        type := anyType_spec ih
        params := parameterList_spec ih
        classLike := classFrom_spec ih
        statement := anyStatement_spec ih
        markup := markupLike_spec ih }

/-- The statements of a module are in order. -/
theorem moduleStatements_spec {r : Rules} (hr : r.Sound) :
    Grammar.Sound c₀ r.moduleStatements := by
  refine sound_of fun n => ?_
  mvcgen [moduleStatements] with simp_all

end Rules

omit [Source] in
/-- A module that is read is in order: all its parts are in their places in its text, and its names
and texts are spelled there. -/
theorem opened_of_parse {dialect : Dialect} {text : List Char} {m : Module}
    (hparse : parseModule dialect text = .ok m) :
    (m.layout text).Opened text ∧ stmtsSpelled text m.statements := by
  let _ : Source := ⟨text⟩
  have hread := ensures_iff.1 (@Rules.moduleStatements_spec _ (Cursor.atFront text) _
    (Rules.bounded_sound (8 * text.length + 32)))
    { types := dialect.types, markup := dialect.markup }
  unfold parseModule readModule at hparse
  dsimp only at hparse
  split at hparse
  · rename_i read cursor hrun
    change (if (cursor.complaints dialect.types).isEmpty = true then pure read
      else throw (cursor.complaints dialect.types)) = Except.ok m at hparse
    split at hparse
    · cases hparse
      have hstatements : Opened m.statements :=
        result_module.1.mp (hread _ _ hrun (Cursor.on_atFront text)).1.opened
      have hlayouts : Layout.AllOpened text (stmtsLayouts m.statements) :=
        stmtsLayouts_eq m.statements ▸ hstatements.1
      refine ⟨Layout.opened_mk.2 ⟨nofun, ?_, nofun, hlayouts⟩, stmtsSpelled_of_opened hstatements⟩
      -- The reach of the module does not depend on where it is said to end.
      have hwide : Layout.Opened text
          (.mk .plain ⟨0, reach m.statements⟩ (stmtsLayouts m.statements)) :=
        Layout.opened_mk.2 ⟨nofun, by simp, nofun, hlayouts⟩
      exact hwide.reach_le_byteLength
    · cases hparse
  · cases hparse

omit [Source] in
/-- All markup in a module that is read opens a tag of its text. -/
theorem opensTag_of_isMarkup {dialect : Dialect} {text : List Char} {m : Module}
    (hparse : parseModule dialect text = .ok m) :
    ∀ y ∈ (m.layout text).nodes, y.isMarkup = true → OpensTag text y.span.start :=
  fun y hy => ((opened_of_parse hparse).1 y hy).opens

end MarkupCompiler.Grammar
