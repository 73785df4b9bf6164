import MarkupCompiler.Proofs.TermOperands

/-!
# Terms read from their text

Every sound term is read back from its text (`termReads`), by induction over terms: each level of
the grammar is climbed once, and each way to put a term together is one lemma.
-/

namespace MarkupCompiler.Grammar

open Syntax Text

/-- How a term is read at the levels of the grammar that it belongs to. As an item it may begin with
a parenthesis that is tried as the parameters of a function. -/
structure TermReads (whole : List Char) (types : Bool) (t : Term) : Prop where
  spine : t.isSpine = true → ReadsSpine whole types t
  unary : 13 ≤ t.level → ReadsUnary whole types t
  operation : 0 < t.level → ReadsOperation whole types t
  item : t.isItem = true → (t.triesArrow true = true → NoArrow whole) → ReadsItem whole types t

section

variable {whole : List Char} {types : Bool} {t : Term}

/-- An operation is an item as well. -/
theorem TermReads.of_operation (h : 0 < t.level → ReadsOperation whole types t)
    (hspine : t.isSpine = true → ReadsSpine whole types t)
    (hunary : 13 ≤ t.level → ReadsUnary whole types t) (hsound : t.isSound types = true)
    (hitem : t.isItem = true → 0 < t.level) : TermReads whole types t :=
  ⟨hspine, hunary, h, fun ht harrow => (h (hitem ht)).item harrow hsound (hitem ht)⟩

/-- An operand with operators before it is an operation as well. -/
theorem TermReads.of_unary (h : 13 ≤ t.level → ReadsUnary whole types t)
    (hspine : t.isSpine = true → ReadsSpine whole types t) (hsound : t.isSound types = true)
    (hlevel : 0 < t.level → 13 ≤ t.level) (hitem : t.isItem = true → 0 < t.level) :
    TermReads whole types t :=
  .of_operation (fun ht => (h (hlevel ht)).operation hsound) hspine h hsound hitem

/-- An operand with members and calls is of all levels, unless one of them is optional: then it is
only a part of a chain. -/
theorem TermReads.of_spine (h : ReadsSpine whole types t) (hspine : t.isSpine = true)
    (hsound : t.isSound types = true) : TermReads whole types t := by
  have hlevel : t.level = if t.isOpen then 0 else 15 := by
    cases t <;> first | rfl | cases hspine
  have hitem : t.isItem = true → 0 < t.level := by
    cases t <;> first | cases hspine; done | exact fun ht => by simpa [Term.isItem] using ht
  refine .of_unary (fun ht => h.unary hsound hspine ?_) (fun _ => h) hsound ?_ hitem
  · cases hopen : t.isOpen with
    | false => rfl
    | true =>
      rw [hlevel, hopen, if_pos rfl] at ht
      omega
  · intro hpos
    rw [hlevel] at hpos ⊢
    split at hpos
    · omega
    · rename_i hopen
      rw [if_neg hopen]
      omega

mutual

/-- Every term that is put together as it has to be is read back from its text. If a parenthesis in
it is tried as the parameters of a function, no arrow stands in the text. -/
theorem termReads : ∀ t : Term, (t.triesArrow false = true → NoArrow whole) →
    t.isSound types = true → TermReads whole types t
  | .leaf token, _, h => .of_spine (readsSpine_leaf token) rfl h
  | .array items, harrow, h => .of_spine (readsSpine_array (listReads true items harrow h)) rfl h
  | .paren inner, harrow, h => by
    -- Within parentheses an arrow is tried at the front of the term.
    obtain ⟨hitem, hinner⟩ := Bool.and_eq_true_iff.1 h
    have hreads := termReads inner (fun htries => harrow (inner.triesArrow_of_false htries)) hinner
    exact .of_spine (readsSpine_paren (hreads.item hitem harrow)) rfl h
  | .member object name isOptional, harrow, h => by
    have hparts := h
    simp only [Term.isSound, Bool.and_eq_true] at hparts
    obtain ⟨⟨hspine, hobject⟩, hdot⟩ := hparts
    exact .of_spine (((termReads object harrow hobject).spine hspine).member hdot) rfl h
  | .index object key isOptional, harrow, h => by
    have hparts := h
    simp only [Term.isSound, Bool.and_eq_true, and_assoc] at hparts
    simp only [Term.triesArrow, Bool.or_eq_true, or_imp] at harrow
    obtain ⟨hspine, hobject, hitem, hkey⟩ := hparts
    have hreads := termReads key (fun htries => harrow.2 (key.triesArrow_of_false htries)) hkey
    exact .of_spine (((termReads object harrow.1 hobject).spine hspine).index
      (hreads.item hitem harrow.2)) rfl h
  | .call callee arguments isOptional, harrow, h => by
    have hparts := h
    simp only [Term.isSound, Bool.and_eq_true] at hparts
    simp only [Term.triesArrow, Bool.or_eq_true, or_imp] at harrow
    obtain ⟨⟨hspine, hcallee⟩, harguments⟩ := hparts
    exact .of_spine (((termReads callee harrow.1 hcallee).spine hspine).call
      (listReads false arguments harrow.2 harguments) (arguments.lastComma_of_areSound harguments))
      rfl h
  | .chain inner, harrow, h => by
    obtain ⟨hopen, hinner⟩ := Bool.and_eq_true_iff.1 h
    have hspine : inner.isSpine = true := by cases inner <;> first | rfl | cases hopen
    exact .of_unary (fun _ => ((termReads inner harrow hinner).spine hspine).chain hinner hopen)
      nofun h (fun _ => (by decide : 13 ≤ 15)) fun _ => (by decide : 0 < 15)
  | .unary op operand, harrow, h => by
    obtain ⟨hlevel, hoperand⟩ := Bool.and_eq_true_iff.1 h
    have hle := of_decide_eq_true hlevel
    exact .of_unary (fun _ => ((termReads operand harrow hoperand).unary hle).unary hle) nofun h
      (fun _ => Nat.le_refl 13) fun _ => (by decide : 0 < 13)
  | .binary op left right, harrow, h => by
    have hparts := h
    simp only [Term.isSound, Bool.and_eq_true, Bool.not_eq_true', and_assoc] at hparts
    simp only [Term.triesArrow, Bool.or_eq_true, or_imp] at harrow
    obtain ⟨htakesLeft, hleft, htakesRight, hright, hmix, hclear⟩ := hparts
    -- Both operands bind at least as tightly as the operator, so neither takes it over.
    have hlevel : 0 < op.level ∧ op.level < 13 := by cases op <;> decide
    have hleftLevel := (BinaryOp.level_of_takesLeft htakesLeft).1
    have hrightLevel := BinaryOp.level_of_takesRight htakesRight
    exact .of_operation (fun _ => ((termReads left harrow.1 hleft).operation (by omega)).binary
      ((termReads right harrow.2 hright).operation (by omega)) htakesLeft htakesRight hmix hclear)
      nofun (fun hle => absurd hlevel.2 (Nat.not_lt.2 hle)) h fun _ => hlevel.1
  | .conditional test consequent alternate, harrow, h => by
    simp only [Term.isSound, Bool.and_eq_true, decide_eq_true_eq, and_assoc] at h
    simp only [Term.triesArrow, Bool.or_eq_true, or_imp, and_assoc] at harrow
    obtain ⟨hpos, htest, hfirst, hconsequent, hsecond, halternate⟩ := h
    have hreadsFirst := termReads consequent
      (fun htries => harrow.2.1 (consequent.triesArrow_of_false htries)) hconsequent
    have hreadsSecond := termReads alternate
      (fun htries => harrow.2.2 (alternate.triesArrow_of_false htries)) halternate
    refine ⟨nofun, nofun, nofun, fun _ hfront => ?_⟩
    exact .conditional ((termReads test harrow.1 htest).operation hpos)
      (hreadsFirst.item hfirst harrow.2.1) (hreadsSecond.item hsecond harrow.2.2)
      (fun htries => hfront (by simp [Term.triesArrow, htries])) htest hpos

/-- Every list of terms that are put together as they have to be is read back from its text. -/
theorem listReads (holes : Bool) : ∀ ts : Terms, (ts.tryArrow = true → NoArrow whole) →
    ts.areSound types holes = true → ReadsList whole types holes ts
  | .nil, _, _ => readsList_nil
  | .hole ts, harrow, h => by
    rw [Terms.areSound, Bool.and_eq_true] at h
    obtain ⟨rfl, hrest⟩ := h
    exact (listReads true ts harrow hrest).hole
  | .value t ts, harrow, h | .spread t ts, harrow, h => by
    simp only [Terms.areSound, Bool.and_eq_true, and_assoc] at h
    simp only [Terms.tryArrow, Bool.or_eq_true, or_imp] at harrow
    obtain ⟨hitem, hsound, hrest⟩ := h
    have hreads := termReads t (fun htries => harrow.1 (t.triesArrow_of_false htries)) hsound
    have hlist := listReads holes ts harrow.2 hrest
    first
    | exact hlist.value (hreads.item hitem harrow.1) hsound
    | exact hlist.spread (hreads.item hitem harrow.1) hsound

end

end

end MarkupCompiler.Grammar
