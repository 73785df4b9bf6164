import MarkupCompiler.Compile.Assembly
import MarkupCompiler.Proofs.Splicing
import MarkupCompiler.Text.Letter

/-!
# Texts in which helpers are only called

The name of a helper is told by the two characters `_$` before it. Generated code has these two
characters nowhere but in calls of the helpers of its target (`OnlyCalls`): its variables have a
dollar sign too, but after a letter, and template literals have one before a brace. So the names
that stand after `_$` in such a text are just the helpers that are called in it
(`OnlyCalls.namesHelper_iff`), and none of them is missed by a search for calls.

The property goes over to texts that are put together, and to a text in which replacements were put
in place (`OnlyCalls.applyAll`), as long as the code of each ends in a bracket.
-/

namespace MarkupCompiler

open Text

namespace Text

/-- A text occurs in another if it is a part of it. -/
theorem occurs_iff {part text : List Char} : occurs part text = true ↔ part <:+: text := by
  induction text with
  | nil => rw [occurs, List.isEmpty_iff, List.infix_nil]
  | cons c text ih =>
    rw [occurs, Bool.or_eq_true, ih, List.isPrefixOf_iff_prefix, List.infix_cons_iff]

/-- A text can be cut where a longer one can. -/
theorem IsCut.of_append {left right : List Char} {n : Nat} (h : IsCut (left ++ right) n)
    (hle : n ≤ byteLength left) : IsCut left n := by
  obtain ⟨before, after, htext, rfl⟩ := isCut_iff.1 h
  obtain ⟨between, rfl, -⟩ := append_eq_append_of_byteLength_le htext.symm hle
  exact isCut_iff.2 ⟨before, between, rfl, rfl⟩

end Text

/-- A name stands in a text after `_$`, with no more characters of names after it. -/
def NamesHelper (text : List Char) (name : String) : Prop :=
  name ≠ "" ∧ (∀ c ∈ name.toList, isNamePart c = true) ∧
    ∃ before after, text = before ++ '_' :: '$' :: (name.toList ++ after) ∧
      ∀ c ∈ after.head?, isNamePart c = false

/-- A text with the two characters `_$` before a name only in calls of the helpers of a target. -/
inductive OnlyCalls (target : Target) : List Char → Prop
  | nil : OnlyCalls target []
  | char {c : Char} {rest : List Char} (hc : c ≠ '$') :
      OnlyCalls target rest → OnlyCalls target (c :: rest)
  /-- A dollar sign in the name of a variable, such as `_root$`. -/
  | dollar {c : Char} {rest : List Char} (hc : c ≠ '$') (hline : c ≠ '_') :
      OnlyCalls target rest → OnlyCalls target (c :: '$' :: rest)
  /-- A dollar sign before an expression in a template literal. -/
  | brace {rest : List Char} :
      OnlyCalls target rest → OnlyCalls target ('$' :: '\x7b' :: rest)
  | call {name : String} {rest : List Char} (hname : name ∈ target.helpers) :
      OnlyCalls target rest → OnlyCalls target ('_' :: '$' :: (name.toList ++ '(' :: rest))

/-- Whether a text has the two characters `_$` only in calls of helpers of a target, from some
character on. -/
def callsOnly (target : Target) : Nat → List Char → Bool
  | _, [] => true
  | skip + 1, _ :: rest => callsOnly target skip rest
  | 0, '_' :: '$' :: rest =>
    match target.helpers.find? fun name => (name.toList ++ ['(']).isPrefixOf rest with
    | some name => callsOnly target (name.toList ++ ['(']).length rest
    | none => false
  | 0, c :: '$' :: rest => c != '$' && callsOnly target 0 rest
  | 0, c :: rest => c != '$' && callsOnly target 0 rest

variable {target : Target}

/-- A text that is found to be so is so. -/
theorem OnlyCalls.of_callsOnly {skip : Nat} {text : List Char}
    (h : callsOnly target skip text = true) : OnlyCalls target (text.drop skip) := by
  fun_induction callsOnly target skip text with
  | case1 =>
    rw [List.drop_nil]
    exact .nil
  | case2 skip c rest ih => exact ih h
  | case3 rest name hname ih =>
    have hprefix := List.find?_some hname
    obtain ⟨tail, rfl⟩ := List.isPrefixOf_iff_prefix.1 hprefix
    rw [List.drop_left] at ih
    rw [List.drop_zero, List.append_assoc]
    exact .call (List.mem_of_find?_eq_some hname) (ih h)
  | case4 => cases h
  | case5 c rest hline ih =>
    rw [Bool.and_eq_true, bne_iff_ne] at h
    exact .dollar h.1 hline (ih h.2)
  | case6 c rest _ _ ih =>
    rw [Bool.and_eq_true, bne_iff_ne] at h
    exact .char h.1 (ih h.2)

/-- The helpers of both targets have names without dollar signs. -/
theorem isNamePart_of_mem_helpers {name : String} (h : name ∈ target.helpers) :
    name ≠ "" ∧ ∀ c ∈ name.toList, isNamePart c = true ∧ c ≠ '$' := by
  have hall : target.helpers.all (fun name =>
      name != "" && name.toList.all fun c => isNamePart c && c != '$') = true := by
    cases target <;> decide
  simpa using List.all_eq_true.1 hall name h

/-- The helpers of a target have different names. -/
theorem nodup_helpers (target : Target) : target.helpers.Nodup := by
  cases target <;> decide

namespace OnlyCalls

variable {target : Target} {text rest : List Char}

/-! ## Texts that are put together -/

/-- A text without dollar signs in front changes nothing. -/
theorem append_of_not_mem {front : List Char} (hfront : '$' ∉ front) (h : OnlyCalls target rest) :
    OnlyCalls target (front ++ rest) := by
  induction front with
  | nil => exact h
  | cons c front ih =>
    rw [List.mem_cons, not_or] at hfront
    exact .char (Ne.symm hfront.1) (ih hfront.2)

/-- A text without dollars calls nothing. -/
theorem of_not_mem (h : '$' ∉ text) : OnlyCalls target text := by
  rw [← List.append_nil text]
  exact append_of_not_mem h .nil

/-- Two texts with calls only make one. -/
theorem append (h : OnlyCalls target text) (hrest : OnlyCalls target rest) :
    OnlyCalls target (text ++ rest) := by
  induction h with
  | nil => exact hrest
  | char hc _ ih => exact .char hc ih
  | dollar hc hline _ ih => exact .dollar hc hline ih
  | brace _ ih => exact .brace ih
  | @call name middle hname _ ih =>
    rw [List.cons_append, List.cons_append, List.append_assoc, List.cons_append]
    exact .call hname ih

/-- The end of a text may be put after any character that no helper's name comes after. A call that
is cut in two is no call any more. -/
theorem cons_of_append {front : List Char} {c : Char} (h : OnlyCalls target (front ++ rest))
    (hc : c ≠ '$') (hline : c ≠ '_') : OnlyCalls target (c :: rest) := by
  generalize htext : front ++ rest = text at h
  -- The induction is on the calls, and the front is cut from each of them in turn.
  induction h generalizing front with
  | nil =>
    obtain ⟨-, rfl⟩ := List.append_eq_nil_iff.1 htext
    exact .char hc .nil
  | @char d middle hd h ih =>
    rcases front with _ | ⟨d, front⟩
    · obtain rfl : rest = _ := htext
      exact .char hc (.char hd h)
    · exact ih (List.tail_eq_of_cons_eq htext)
  | @dollar d middle hd hdline h ih =>
    rcases front with _ | ⟨d, _ | ⟨e, front⟩⟩
    · obtain rfl : rest = _ := htext
      exact .char hc (.dollar hd hdline h)
    · obtain rfl : rest = _ := List.tail_eq_of_cons_eq htext
      exact .dollar hc hline h
    · exact ih (List.tail_eq_of_cons_eq (List.tail_eq_of_cons_eq htext))
  | @brace middle h ih =>
    rcases front with _ | ⟨d, _ | ⟨e, front⟩⟩
    · obtain rfl : rest = _ := htext
      exact .char hc (.brace h)
    · obtain rfl : rest = _ := List.tail_eq_of_cons_eq htext
      exact .char hc (.char (by decide) h)
    · exact ih (List.tail_eq_of_cons_eq (List.tail_eq_of_cons_eq htext))
  | @call name middle hname h ih =>
    have hplain : '$' ∉ name.toList := fun hmem =>
      ((isNamePart_of_mem_helpers hname).2 _ hmem).2 rfl
    rcases front with _ | ⟨d, _ | ⟨e, front⟩⟩
    · obtain rfl : rest = _ := htext
      exact .char hc (.call hname h)
    · obtain rfl : rest = _ := List.tail_eq_of_cons_eq htext
      exact .dollar hc hline (append_of_not_mem hplain (.char (by decide) h))
    · -- The cut is in the name, or after the bracket.
      have htail := List.tail_eq_of_cons_eq (List.tail_eq_of_cons_eq htext)
      rcases List.append_eq_append_iff.1 htail with ⟨between, hname', rfl⟩ | ⟨between, rfl, hrest⟩
      · have hbetween : '$' ∉ between := fun hmem =>
          hplain (hname' ▸ List.mem_append_right front hmem)
        exact .char hc (append_of_not_mem hbetween (.char (by decide) h))
      · rcases between with _ | ⟨b, between⟩
        · obtain rfl : rest = _ := hrest.symm
          exact .char hc (.char (by decide) h)
        · exact ih (List.tail_eq_of_cons_eq hrest).symm

/-! ## Replacements -/

end OnlyCalls

/-- Code with a bracket at its end. -/
def ClosedCode (target : Target) (code : List Char) : Prop :=
  ∃ front c, code = front ++ [c] ∧ c ∈ [')', ']'] ∧ OnlyCalls target front

/-- A bracket at the end calls nothing. -/
theorem ClosedCode.onlyCalls {code : List Char} (h : ClosedCode target code) :
    OnlyCalls target code := by
  obtain ⟨front, c, rfl, hc, hfront⟩ := h
  refine hfront.append (.of_not_mem fun hmem => ?_)
  rw [List.mem_singleton] at hmem
  subst hmem
  exact absurd hc (by decide)

/-- The end of a text may be put after code with a bracket at its end. -/
theorem ClosedCode.append {code front rest : List Char} (h : ClosedCode target code)
    (hrest : OnlyCalls target (front ++ rest)) : OnlyCalls target (code ++ rest) := by
  obtain ⟨before, c, rfl, hc, hbefore⟩ := h
  have hbracket : ∀ c ∈ [')', ']'], c ≠ '$' ∧ c ≠ '_' := by simp
  obtain ⟨hdollar, hline⟩ := hbracket c hc
  rw [List.append_assoc]
  exact hbefore.append (hrest.cons_of_append hdollar hline)

namespace OnlyCalls

variable {target : Target} {text rest : List Char}

/-- Replacements from the last to the first keep to calls of helpers. The part before the last one
that was put in place is as it was at first, and the others are yet to be put into it. -/
theorem foldl_apply {base : Nat} {rs : List Replacement} {front back : List Char}
    (hplain : '$' ∉ front) (hcut : ∀ r ∈ rs, IsCut front (r.span.start - base))
    (horder : rs.Pairwise fun a b => b.span.start ≤ a.span.start)
    (hcode : ∀ r ∈ rs, ClosedCode target r.text) (h : OnlyCalls target (front ++ back)) :
    OnlyCalls target (rs.foldl (Replacement.apply base) (front ++ back)) := by
  induction rs generalizing front back with
  | nil => exact h
  | cons r rs ih =>
    rw [List.pairwise_cons] at horder
    obtain ⟨left, right, rfl, hleft⟩ := isCut_iff.1 (hcut r (.head _))
    have hplainLeft : '$' ∉ left := fun hmem => hplain (List.mem_append_left right hmem)
    have hput : Replacement.apply base (left ++ right ++ back) r =
        left ++ (r.text ++ (cutNear (r.span.stop - base) (left ++ right ++ back)).2) := by
      have hbefore : cutNear (r.span.start - base) (left ++ right ++ back) =
          (left, right ++ back) := by
        rw [← hleft, List.append_assoc]
        exact cutNear_of_cutAt? (cutAt?_append left (right ++ back))
      rw [Replacement.apply, hbefore, List.append_assoc]
    rw [List.foldl_cons, hput]
    refine ih hplainLeft (fun s hs => ?_) horder.2
      (fun s hs => hcode s (List.mem_cons_of_mem r hs)) ?_
    · -- The next one starts no later, and so in what is left of the front.
      have hle : s.span.start - base ≤ byteLength left := by
        rw [hleft]
        exact Nat.sub_le_sub_right (horder.1 s hs) base
      exact (hcut s (List.mem_cons_of_mem r hs)).of_append hle
    · rw [← cutNear_append (r.span.stop - base) (left ++ right ++ back)] at h
      exact append_of_not_mem hplainLeft ((hcode r (.head _)).append h)

/-- A text without dollar signs keeps to calls of helpers when code is put in place of stretches
that start between its characters. -/
theorem applyAll {base : Nat} {rs : List Replacement} (hplain : '$' ∉ text)
    (hcut : ∀ r ∈ rs, IsCut text (r.span.start - base))
    (hcode : ∀ r ∈ rs, ClosedCode target r.text) :
    OnlyCalls target (Replacement.applyAll base text rs) := by
  have hmem : ∀ r ∈ rs.mergeSort fun a b => decide (b.span.start ≤ a.span.start), r ∈ rs :=
    fun r hr => (List.mergeSort_perm rs _).mem_iff.1 hr
  have hsorted := List.pairwise_reverse.1 (Replacement.pairwise_ascending rs)
  have htext : OnlyCalls target (text ++ []) := (of_not_mem hplain).append .nil
  have hfold := foldl_apply hplain (fun r hr => hcut r (hmem r hr)) hsorted
    (fun r hr => hcode r (hmem r hr)) htext
  rw [List.append_nil] at hfold
  exact hfold

/-! ## The names of helpers -/

/-- After a dollar sign at the very start comes a brace. -/
theorem head?_eq_of_dollar (h : OnlyCalls target ('$' :: text)) : text.head? = some '\x7b' := by
  cases h with
  | char hc => exact absurd rfl hc
  | dollar hc => exact absurd rfl hc
  | brace => rfl

/-- Where a name stands after `_$`, a helper is called. -/
theorem exists_call (h : OnlyCalls target text) {before after : List Char} {c : Char}
    (htext : text = before ++ '_' :: '$' :: after) (hafter : after.head? = some c)
    (hc : isNamePart c = true) :
    ∃ name ∈ target.helpers, ∃ rest, after = name.toList ++ '(' :: rest := by
  induction h generalizing before with
  | nil => exact absurd htext.symm (by simp)
  | @char d rest hd h ih =>
    rcases before with _ | ⟨d, before⟩
    · -- The underscore stands alone, and so a brace comes after the dollar sign.
      obtain ⟨rfl, rfl⟩ := List.cons.inj htext
      obtain rfl : c = '\x7b' := Option.some.inj (hafter.symm.trans h.head?_eq_of_dollar)
      exact absurd hc (by decide)
    · exact ih (List.tail_eq_of_cons_eq htext)
  -- A dollar sign after another character than the underscore calls nothing.
  | @dollar d rest hd hline h ih =>
    rcases before with _ | ⟨d, _ | ⟨e, before⟩⟩
    · exact absurd (List.head_eq_of_cons_eq htext) hline
    · exact absurd (List.head_eq_of_cons_eq (List.tail_eq_of_cons_eq htext)) (by decide)
    · exact ih (List.tail_eq_of_cons_eq (List.tail_eq_of_cons_eq htext))
  | @brace rest h ih =>
    rcases before with _ | ⟨d, _ | ⟨e, before⟩⟩
    · exact absurd (List.head_eq_of_cons_eq htext) (by decide)
    · exact absurd (List.head_eq_of_cons_eq (List.tail_eq_of_cons_eq htext)) (by decide)
    · exact ih (List.tail_eq_of_cons_eq (List.tail_eq_of_cons_eq htext))
  | @call name rest hname h ih =>
    rcases before with _ | ⟨d, _ | ⟨e, before⟩⟩
    · exact ⟨name, hname, rest,
        (List.tail_eq_of_cons_eq (List.tail_eq_of_cons_eq htext)).symm⟩
    · exact absurd (List.head_eq_of_cons_eq (List.tail_eq_of_cons_eq htext)) (by decide)
    · -- The name has no dollar sign in it, so the place is after the call.
      have htail := List.tail_eq_of_cons_eq (List.tail_eq_of_cons_eq htext)
      rcases List.append_eq_append_iff.1 htail with ⟨between, rfl, hrest⟩ | ⟨between, hname', hrest⟩
      · rcases between with _ | ⟨b, between⟩
        · exact absurd (List.head_eq_of_cons_eq hrest) (by decide)
        · exact ih (List.tail_eq_of_cons_eq hrest)
      · rcases between with _ | ⟨b, _ | ⟨e, between⟩⟩
        · exact absurd (List.head_eq_of_cons_eq hrest) (by decide)
        · exact absurd (List.head_eq_of_cons_eq (List.tail_eq_of_cons_eq hrest)) (by decide)
        · have hdollar : '$' ∈ name.toList := by
            rw [hname', List.head_eq_of_cons_eq (List.tail_eq_of_cons_eq hrest)]
            simp
          exact absurd rfl ((isNamePart_of_mem_helpers hname).2 _ hdollar).2

/-- The names after `_$` are those of the helpers that are called. -/
theorem namesHelper_iff (h : OnlyCalls target text) {name : String} :
    NamesHelper text name ↔ name ∈ target.helpers ∧ callsHelper text name = true := by
  have hcall : ("_$" ++ name ++ "(").toList = '_' :: '$' :: (name.toList ++ ['(']) := by
    rw [String.toList_append, String.toList_append]
    rfl
  rw [callsHelper, occurs_iff, hcall]
  constructor
  · rintro ⟨hne, hparts, before, after, rfl, hafter⟩
    obtain ⟨c, word, hname⟩ := List.exists_cons_of_ne_nil (mt String.toList_eq_nil_iff.1 hne)
    obtain ⟨helper, hhelper, rest, hrest⟩ := h.exists_call (c := c) rfl (by rw [hname]; rfl)
      (hparts c (hname ▸ (.head _)))
    -- Both are all that there is of characters of names.
    have hsame : name.toList = helper.toList := by
      have htake : (name.toList ++ after).takeWhile isNamePart = name.toList := by
        rw [List.takeWhile_append_of_pos hparts]
        cases after with
        | nil => simp
        | cons d after => simp [hafter d rfl]
      have hbracket : isNamePart '(' = false := by decide
      rw [hrest, List.takeWhile_append_of_pos fun d hd =>
        ((isNamePart_of_mem_helpers hhelper).2 d hd).1, List.takeWhile_cons, hbracket] at htake
      simpa using htake.symm
    rw [hsame, List.append_cancel_left_eq] at hrest
    refine ⟨String.toList_inj.1 hsame ▸ hhelper, before, rest, ?_⟩
    rw [hrest]
    simp
  · rintro ⟨hmem, before, after, rfl⟩
    obtain ⟨hne, hparts⟩ := isNamePart_of_mem_helpers hmem
    refine ⟨hne, fun c hc => (hparts c hc).1, before, '(' :: after, by simp, ?_⟩
    rintro c ⟨⟩
    decide

end OnlyCalls

end MarkupCompiler
