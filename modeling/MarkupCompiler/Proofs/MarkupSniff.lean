import MarkupCompiler.Proofs.Rewriting
import MarkupCompiler.Proofs.StatementSpec

/-!
# Which markup the scan of a text sees

A file is parsed only if a scan of its text finds an angle bracket before a letter or another angle
bracket. The grammar of markup is wider: a name may begin with `_`, `$` or any other letter, and
blanks may stand before it. `unseen_markup_iff` says when a file that has markup is left as it is,
and how all markup in such a file opens.
-/

namespace MarkupCompiler

open Syntax Grammar Text

/-- The scan finds an angle bracket right before an ASCII letter or before the bracket that closes
the tag of a fragment, and nothing else. -/
theorem containsMarkup_eq_true_iff {text : List Char} :
    containsMarkup text = true ↔
      ∃ before c rest, text = before ++ '<' :: c :: rest ∧ (c.isAlpha = true ∨ c = '>') := by
  constructor
  · intro hsees
    -- By induction on the text that is left: the scan drops its first character.
    induction text with
    | nil => cases hsees
    | cons first text ih =>
      have hlater : containsMarkup text = true →
          ∃ before c rest, first :: text = before ++ '<' :: c :: rest ∧
            (c.isAlpha = true ∨ c = '>') := by
        intro hlater
        obtain ⟨before, c, rest, rfl, hc⟩ := ih hlater
        exact ⟨first :: before, c, rest, rfl, hc⟩
      unfold containsMarkup at hsees
      split at hsees
      · rename_i c rest heq
        obtain ⟨rfl, rfl⟩ := List.cons.inj heq
        rw [Bool.or_eq_true, Bool.or_eq_true, beq_iff_eq] at hsees
        rcases hsees with hc | hlater'
        · exact ⟨[], c, rest, rfl, hc⟩
        · exact hlater hlater'
      · rename_i heq
        obtain ⟨rfl, rfl⟩ := List.cons.inj heq
        exact hlater hsees
      · rename_i heq
        cases heq
  · rintro ⟨before, c, rest, rfl, hc⟩
    induction before with
    | nil =>
      rcases hc with hc | rfl
      · simp [containsMarkup, hc]
      · simp [containsMarkup]
    | cons first before ih =>
      rw [List.cons_append, containsMarkup.eq_def]
      split
      · rename_i heq
        obtain ⟨rfl, htext⟩ := List.cons.inj heq
        rw [← htext, ih, Bool.or_true]
      · rename_i heq
        obtain ⟨rfl, rfl⟩ := List.cons.inj heq
        exact ih
      · rename_i heq
        cases heq

/-- A tree with markup gives a replacement for each piece, so that code comes out of it. -/
theorem compile_ne_none_of_markups {source fileId : String} {options : CompileOptions} {m : Module}
    (hsees : containsMarkup source.toList = true)
    (hparse : parseModule (FileId.dialect fileId) source.toList = .ok m)
    (hmarkup : m.markups ≠ []) :
    compile source fileId options ≠ .ok none := by
  rw [compile_of_containsMarkup fileId options hsees, hparse]
  dsimp only
  split
  · intro hnone
    cases hnone
  · rename_i replacements table hrun
    obtain ⟨codes, hcodes, rfl⟩ := emittedInTurn_of_emitReplacements hrun
    intro hnone
    have hspans : (replacementsFor m.markups codes).map Replacement.span =
        m.markups.map Markup.span := hcodes.map_span
    have hne : replacementsFor m.markups codes ≠ [] := by
      intro hnil
      rw [hnil] at hspans
      exact hmarkup (List.map_eq_nil_iff.mp hspans.symm)
    obtain ⟨r, rs, hcons⟩ := List.exists_cons_of_ne_nil hne
    rw [hcons] at hnone
    cases hnone

/-- A tag opens at an offset in a way that the scan does not look for: after its angle bracket
stands a blank, the slash of a comment, or the front of a name that begins with no ASCII letter. -/
def OpensUnseen (text : List Char) (offset : Nat) : Prop :=
  ∃ before c rest, text = before ++ '<' :: c :: rest ∧ byteLength before = offset ∧
    (isSolid c = false ∨ c = '\\' ∨ (isNameStart c = true ∧ c.isAlpha = false))

/-- Where the scan finds nothing, tags open in a way that it does not look for. -/
theorem opensUnseen_of_opensTag {text : List Char} {offset : Nat} (h : OpensTag text offset)
    (hunseen : containsMarkup text = false) : OpensUnseen text offset := by
  obtain ⟨before, c, rest, htext, hoffset, hc⟩ := h
  have hplain : ¬(c.isAlpha = true ∨ c = '>') := by
    intro hseen
    rw [containsMarkup_eq_true_iff.mpr ⟨before, c, rest, htext, hseen⟩] at hunseen
    cases hunseen
  refine ⟨before, c, rest, htext, hoffset, ?_⟩
  rcases hc with hclose | hblank | hname | hescape
  · exact absurd (.inr hclose) hplain
  · exact .inl hblank
  · exact .inr (.inr ⟨hname, Bool.eq_false_iff.mpr fun halpha => hplain (.inl halpha)⟩)
  · exact .inr (.inl hescape)

/-- A file with markup is left as it is exactly if none of its angle brackets stands right before
an ASCII letter or a `>`, wherever its markup stands and whatever the names in it. Then all its
markup, at any depth, opens with a blank or a comment, or with a name that begins with no ASCII
letter, after its angle bracket. -/
theorem unseen_markup_iff {source fileId : String} {options : CompileOptions} {m : Module}
    (hparse : parseModule (FileId.dialect fileId) source.toList = .ok m)
    (hmarkup : m.markups ≠ []) :
    (compile source fileId options = .ok none ↔
      ∀ before c rest, source.toList = before ++ '<' :: c :: rest →
        ¬(c.isAlpha = true ∨ c = '>')) ∧
    (compile source fileId options = .ok none →
      ∀ y ∈ (m.layout source.toList).nodes, y.isMarkup = true →
        OpensUnseen source.toList y.span.start) := by
  have hunseen_iff : compile source fileId options = .ok none ↔
      containsMarkup source.toList = false := by
    constructor
    · intro hnone
      exact Bool.eq_false_iff.mpr fun hsees =>
        compile_ne_none_of_markups hsees hparse hmarkup hnone
    · exact compile_of_not_containsMarkup fileId options
  constructor
  · rw [hunseen_iff, ← Bool.not_eq_true, containsMarkup_eq_true_iff]
    constructor
    · intro hunseen before c rest htext hc
      exact hunseen ⟨before, c, rest, htext, hc⟩
    · rintro hunseen ⟨before, c, rest, htext, hc⟩
      exact hunseen before c rest htext hc
  · intro hnone y hy hmarkup
    exact opensUnseen_of_opensTag (opensTag_of_isMarkup hparse y hy hmarkup) (hunseen_iff.mp hnone)

/-- An element in an array, with a comparison after it that the scan takes for a tag. -/
theorem unseen_markup_iff_comparison :
    ∃ m, parseModule (FileId.dialect "a.jsx") "[<_x/>, a<b]".toList = .ok m ∧ m.markups ≠ [] ∧
      compile "[<_x/>, a<b]" "a.jsx" {} ≠ .ok none := by
  obtain ⟨m, hparse⟩ : ∃ m, parseModule (FileId.dialect "a.jsx") "[<_x/>, a<b]".toList = .ok m :=
    exists_of_isSome_toOption (by decide +kernel)
  have hspans : ∀ m, parseModule (FileId.dialect "a.jsx") "[<_x/>, a<b]".toList = .ok m →
      m.markups.map Markup.span = [⟨1, 6⟩] := by decide +kernel
  have hmarkup : m.markups ≠ [] := by
    intro hnil
    have hspan := hspans m hparse
    rw [hnil] at hspan
    cases hspan
  refine ⟨m, hparse, hmarkup, fun hnone => ?_⟩
  exact (unseen_markup_iff hparse hmarkup).1.mp hnone "[<_x/>, a".toList 'b' "]".toList (by decide)
    (.inl (by decide))

/-- An element whose name begins with an underscore is markup that the compiler leaves in place. -/
theorem underscore_element_unseen :
    (∃ m, parseModule (FileId.dialect "a.jsx") "<_x/>".toList = .ok m ∧
      m.markups.map Markup.span = [⟨0, 5⟩]) ∧
    compile "<_x/>" "a.jsx" {} = .ok none := by
  have hspans : ∀ m, parseModule (FileId.dialect "a.jsx") "<_x/>".toList = .ok m →
      m.markups.map Markup.span = [⟨0, 5⟩] := by decide +kernel
  obtain ⟨m, hparse⟩ : ∃ m, parseModule (FileId.dialect "a.jsx") "<_x/>".toList = .ok m :=
    exists_of_isSome_toOption (by decide +kernel)
  exact ⟨⟨m, hparse, hspans m hparse⟩,
    compile_of_not_containsMarkup "a.jsx" {} (by decide +kernel)⟩

end MarkupCompiler
