import MarkupCompiler.Proofs.Splicing

/-!
# Replacements in any order

What comes of replacements that fit a text is said by the gaps between their spans. The gaps are
parts of the text as it was (`gaps?`), and which they are depends on the spans alone. The result has
them in order, with the new texts between them (`interleave`). So it does not matter in which order
the replacements are listed, nor how long the new texts are (`applyAll_interleaves_gaps`), although
they are put in place one after the other, in a text that has changed behind them.
-/

namespace MarkupCompiler

open Text

/-! ## Gaps -/

/-- The parts of a text before, between and after spans in their order, from an offset on. The first
byte of the text has the offset `base`. -/
def gaps? (base : Nat) (text : List Char) (offset : Nat) : List Span → Option (List (List Char))
  | [] => (slice? text ⟨offset - base, byteLength text⟩).map ([·])
  | span :: spans => do
    let gap ← slice? text ⟨offset - base, span.start - base⟩
    let gaps ← gaps? base text span.stop spans
    return gap :: gaps

/-- Gaps in order, with new texts between them. -/
def interleave : List (List Char) → List (List Char) → List Char
  | gap :: gaps, text :: texts => gap ++ (text ++ interleave gaps texts)
  | gaps, _ => gaps.flatten

/-- There is a gap before each span and one after the last. -/
theorem length_of_gaps? {base offset : Nat} {text : List Char} {spans : List Span}
    {gaps : List (List Char)} (h : gaps? base text offset spans = some gaps) :
    gaps.length = spans.length + 1 := by
  induction spans generalizing offset gaps with
  | nil =>
    obtain ⟨gap, -, rfl⟩ := Option.map_eq_some_iff.1 h
    rfl
  | cons span spans ih =>
    rw [gaps?, Option.bind_eq_bind, Option.bind_eq_some_iff] at h
    obtain ⟨gap, -, h⟩ := h
    obtain ⟨rest, hrest, h⟩ := Option.bind_eq_some_iff.1 h
    cases h
    rw [List.length_cons, ih hrest, List.length_cons]

/-- From left to right, a text is rewritten to its gaps with the new texts between them. -/
theorem leftToRight_eq_map_gaps? (base : Nat) (text : List Char) (offset : Nat)
    (rs : List Replacement) :
    leftToRight base text offset rs =
      (gaps? base text offset (rs.map Replacement.span)).map
        (interleave · (rs.map Replacement.text)) := by
  induction rs generalizing offset with
  | nil =>
    rw [leftToRight, List.map_nil, List.map_nil, gaps?, Option.map_map]
    cases slice? text ⟨offset - base, byteLength text⟩ with
    | none => rfl
    | some gap => simp [interleave]
  | cons r rs ih =>
    rw [leftToRight, List.map_cons, List.map_cons, gaps?, ih]
    cases slice? text ⟨offset - base, r.span.start - base⟩ with
    | none => rfl
    | some gap =>
      cases gaps? base text r.span.stop (rs.map Replacement.span) with
      | none => rfl
      | some gaps => rfl

namespace Replacement

variable {base : Nat} {text : List Char} {rs rs' : List Replacement}

/-! ## Spans decide -/

/-- Whether replacements fit depends on their spans alone, in any order. -/
theorem Fit.of_perm_spans (h : Fit base text rs)
    (hspans : (rs'.map Replacement.span).Perm (rs.map Replacement.span)) : Fit base text rs' := by
  have hmem : ∀ r' ∈ rs', ∃ r ∈ rs, r.span = r'.span := fun r' hr' =>
    List.mem_map.1 (hspans.mem_iff.1 (List.mem_map_of_mem hr'))
  refine ⟨fun r' hr' => ?_, fun r' hr' => ?_, ?_⟩
  · obtain ⟨r, hr, hspan⟩ := hmem r' hr'
    exact hspan ▸ h.inside r hr
  · obtain ⟨r, hr, hspan⟩ := hmem r' hr'
    exact hspan ▸ h.cut r hr
  · have hapart : (rs.map Replacement.span).Pairwise fun a b => a.start ≠ b.start ∧ a.Apart b :=
      List.pairwise_map.2 h.apart
    exact List.pairwise_map.1 (hapart.perm hspans.symm fun hab => ⟨hab.1.symm, hab.2.symm⟩)

/-- Replacements that fit have a strict order. -/
theorem Fit.pairwise_ascending (h : Fit base text rs) :
    (ascending rs).Pairwise fun a b => a.span.start < b.span.start := by
  have hdistinct : (ascending rs).Pairwise fun a b => a.span.start ≠ b.span.start :=
    (h.apart.imp fun hab => hab.1).perm (ascending_perm rs).symm fun hne => hne.symm
  exact ((Replacement.pairwise_ascending rs).and hdistinct).imp fun hab =>
    Nat.lt_of_le_of_ne hab.1 hab.2

/-- Replacements that fit rewrite a text from left to right. -/
theorem Fit.leftToRight_eq (h : Fit base text rs) :
    leftToRight base text base (ascending rs) = some (applyAll base text rs) := by
  obtain ⟨out, hout⟩ := h.exists_rewrites
  rw [applyAll_of_rewrites hout]
  exact hout.leftToRight_eq [] rfl

/-- A replacement with another text. -/
def withText (new : Replacement → List Char) (r : Replacement) : Replacement := ⟨r.span, new r⟩

/-- Replacements with other texts, in another order, are put into the order that they had. -/
theorem Fit.ascending_map_withText (h : Fit base text rs) (hperm : rs'.Perm rs)
    (new : Replacement → List Char) :
    ascending (rs'.map (withText new)) = (ascending rs).map (withText new) :=
  ascending_eq_of_perm (((ascending_perm rs).trans hperm.symm).map _)
    (List.pairwise_map.2 h.pairwise_ascending)

/-- Replacements with other texts, in another order, leave the gaps that they left, with the new
texts between them. Each of them fits when its turn comes. -/
theorem Fit.putAll?_map_withText (h : Fit base text rs) (hperm : rs'.Perm rs)
    (new : Replacement → List Char) {gaps : List (List Char)}
    (hgaps : gaps? base text base ((ascending rs).map Replacement.span) = some gaps) :
    putAll? base text (rs'.map (withText new)) =
      some (interleave gaps ((ascending rs).map new)) := by
  have hspans : ∀ rs : List Replacement,
      (rs.map (withText new)).map Replacement.span = rs.map Replacement.span := fun rs => by
    rw [List.map_map]
    rfl
  have htexts : ((ascending rs).map (withText new)).map Replacement.text =
      (ascending rs).map new := by
    rw [List.map_map]
    rfl
  have hfit : Fit base text (rs'.map (withText new)) :=
    h.of_perm_spans ((hspans rs').symm ▸ hperm.map _)
  have hresult := hfit.leftToRight_eq
  rw [h.ascending_map_withText hperm, leftToRight_eq_map_gaps?, hspans, hgaps, htexts,
    Option.map_some] at hresult
  rw [hfit.putAll?_eq, ← hresult]

end Replacement

/-! ## The result -/

/-- Replacements that fit a text, in the order of their spans, leave gaps, which depend on the text
and the spans alone. Whatever the new texts are, however long, and in whatever order the
replacements are listed, each of them fits when its turn comes, and the result has the gaps in order
and the new texts between them. -/
theorem applyAll_interleaves_gaps (base : Nat) (text : List Char) (rs : List Replacement)
    (h : Replacement.Fit base text rs) :
    ∃ (sorted : List Replacement) (gaps : List (List Char)), sorted.Perm rs ∧
      sorted.Pairwise (fun a b => a.span.start < b.span.start) ∧
      gaps? base text base (sorted.map Replacement.span) = some gaps ∧
      gaps.length = rs.length + 1 ∧
      Replacement.applyAll base text rs = interleave gaps (sorted.map Replacement.text) ∧
      ∀ (rs' : List Replacement) (new : Replacement → List Char), rs'.Perm rs →
        Replacement.putAll? base text (rs'.map (Replacement.withText new)) =
            some (interleave gaps (sorted.map new)) ∧
          Replacement.applyAll base text (rs'.map (Replacement.withText new)) =
            interleave gaps (sorted.map new) := by
  have hresult := h.leftToRight_eq
  rw [leftToRight_eq_map_gaps?] at hresult
  obtain ⟨gaps, hgaps, happly⟩ := Option.map_eq_some_iff.1 hresult
  refine ⟨Replacement.ascending rs, gaps, Replacement.ascending_perm rs, h.pairwise_ascending,
    hgaps, ?_, happly.symm, fun rs' new hperm => ?_⟩
  · rw [length_of_gaps? hgaps, List.length_map, (Replacement.ascending_perm rs).length_eq]
  · have hput := h.putAll?_map_withText hperm new hgaps
    exact ⟨hput, Replacement.applyAll_of_putAll? hput⟩

/-- A text with two elements that touch. -/
def sampleText : List Char := "é = <b/><i/>;".toList

/-- Replacements for the elements of the text, and for the empty span behind them. -/
def sampleReplacements : List Replacement :=
  [⟨⟨19, 23⟩, "I".toList⟩, ⟨⟨23, 23⟩, "!".toList⟩, ⟨⟨15, 19⟩, "B()".toList⟩]

/-- The replacements fit, and put the texts where the elements were, also the other way round. -/
theorem applyAll_interleaves_gaps_sample :
    Replacement.Fit 10 sampleText sampleReplacements ∧
      Replacement.applyAll 10 sampleText sampleReplacements = "é = B()I!;".toList ∧
      Replacement.applyAll 10 sampleText sampleReplacements.reverse = "é = B()I!;".toList := by
  have hfit : Replacement.Fit 10 sampleText sampleReplacements :=
    ⟨by decide, by decide, by decide⟩
  obtain ⟨sorted, gaps, hperm, hsorted, hgaps, -, happly, hany⟩ :=
    applyAll_interleaves_gaps 10 sampleText sampleReplacements hfit
  -- The order of the three spans is the one that the theorem speaks of.
  have hlist : sorted = [⟨⟨15, 19⟩, "B()".toList⟩, ⟨⟨19, 23⟩, "I".toList⟩,
    ⟨⟨23, 23⟩, "!".toList⟩] :=
    (Replacement.ascending_eq_of_perm hperm hsorted).symm.trans
      (Replacement.ascending_eq_of_perm (by decide) (by decide))
  subst hlist
  have hvalue : gaps = ["é = ".toList, [], [], ";".toList] := Option.some.inj (hgaps.symm.trans rfl)
  subst hvalue
  exact ⟨hfit, happly, (hany _ Replacement.text (List.reverse_perm sampleReplacements)).2⟩

end MarkupCompiler
