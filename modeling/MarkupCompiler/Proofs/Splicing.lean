import MarkupCompiler.Text.Bytes

/-!
# Replacements are put in place from left to right

Replacements are put in place from the last to the first, in a text that grows and shrinks on the
way. What comes out is said here from left to right: `Rewrites` takes a text apart into the
stretches that are replaced and those between them, and the result has the new texts for the former
and keeps the latter. If the stretches are apart and begin and end between characters, there is such
a result (`Fit.exists_rewrites`), and it is what the replacements make of the text
(`applyAll_of_rewrites`).

Offsets that do not fit are moved by `Replacement.apply`. The checked form `Replacement.put?`
refuses them, so a result of `putAll?` says that none had to be moved.
-/

namespace MarkupCompiler

namespace Text

/-! ## Cuts -/

/-- The bytes of two texts, one after the other. -/
theorem byteLength_append (a b : List Char) :
    byteLength (a ++ b) = byteLength a + byteLength b := by
  induction a with
  | nil => rw [List.nil_append, byteLength, Nat.zero_add]
  | cons c a ih => rw [List.cons_append, byteLength, byteLength, ih, Nat.add_assoc]

variable {text : List Char} {n : Nat} {span : Span}

/-- A text without bytes is empty. -/
theorem eq_nil_of_byteLength_eq_zero (h : byteLength text = 0) : text = [] := by
  cases text with
  | nil => rfl
  | cons c text =>
    have hpos := c.utf8Size_pos
    rw [byteLength] at h
    omega

/-- A cut takes a text apart after the number of bytes asked for. -/
theorem cutAt?_eq_some {text before after : List Char} :
    cutAt? n text = some (before, after) ↔ text = before ++ after ∧ byteLength before = n := by
  fun_induction cutAt? n text generalizing before with
  | case1 text =>
    constructor
    · intro h
      cases h
      exact ⟨rfl, rfl⟩
    · rintro ⟨rfl, h⟩
      rw [eq_nil_of_byteLength_eq_zero h, List.nil_append]
  | case2 n =>
    constructor
    · intro h
      cases h
    · rintro ⟨h, hlength⟩
      rw [(List.append_eq_nil_iff.1 h.symm).1] at hlength
      cases hlength
  | case3 n c text hle ih =>
    have hpos := c.utf8Size_pos
    constructor
    · intro h
      obtain ⟨⟨before', after'⟩, hcut, hpair⟩ := Option.map_eq_some_iff.1 h
      cases hpair
      obtain ⟨rfl, hlength⟩ := ih.1 hcut
      refine ⟨rfl, ?_⟩
      rw [byteLength, hlength]
      omega
    · rintro ⟨htext, hlength⟩
      cases before with
      | nil => cases hlength
      | cons d before =>
        obtain ⟨rfl, rfl⟩ := List.cons.inj htext
        rw [byteLength] at hlength
        rw [ih.2 ⟨rfl, by omega⟩]
        rfl
  -- The cut would be inside a character.
  | case4 n c text hle =>
    constructor
    · intro h
      cases h
    · rintro ⟨htext, hlength⟩
      cases before with
      | nil => cases hlength
      | cons d before =>
        obtain ⟨rfl, rfl⟩ := List.cons.inj htext
        rw [byteLength] at hlength
        omega

/-- After the bytes of its first part a text is cut into its parts. -/
theorem cutAt?_append (before after : List Char) :
    cutAt? (byteLength before) (before ++ after) = some (before, after) :=
  cutAt?_eq_some.2 ⟨rfl, rfl⟩

/-- A cut that fits is not moved. -/
theorem cutNear_of_cutAt? {parts : List Char × List Char} (h : cutAt? n text = some parts) :
    cutNear n text = parts := by
  fun_induction cutAt? n text generalizing parts with
  | case1 text =>
    rw [cutNear]
    exact Option.some.inj h
  | case2 n => cases h
  | case3 n c text hle ih =>
    obtain ⟨parts', hcut, rfl⟩ := Option.map_eq_some_iff.1 h
    rw [cutNear, if_pos hle, ih hcut]
  | case4 n c text hle => cases h

/-- The two parts of a text that is cut make up the text. -/
theorem cutNear_append (n : Nat) (text : List Char) :
    (cutNear n text).1 ++ (cutNear n text).2 = text := by
  fun_induction cutNear n text with
  | case1 => rfl
  | case2 => rfl
  | case3 n c text hle before after hcut ih =>
    rw [hcut] at ih
    rw [List.cons_append, ih]
  | case4 => rfl

/-- A slice is the text between two cuts. -/
theorem slice?_eq_some {text part : List Char} :
    slice? text span = some part ↔
      ∃ before after, text = before ++ (part ++ after) ∧ byteLength before = span.start ∧
        span.start + byteLength part = span.stop := by
  unfold slice?
  constructor
  · intro h
    split at h
    · simp only [Option.bind_eq_bind, Option.bind_eq_some_iff, Option.pure_def] at h
      obtain ⟨⟨before, rest⟩, hstart, ⟨part', after⟩, hstop, hpart⟩ := h
      obtain rfl : part' = part := Option.some.inj hpart
      obtain ⟨rfl, hbefore⟩ := cutAt?_eq_some.1 hstart
      obtain ⟨rfl, hlength⟩ := cutAt?_eq_some.1 hstop
      exact ⟨before, after, rfl, hbefore, by omega⟩
    · cases h
  · rintro ⟨before, after, rfl, hbefore, hlength⟩
    have hstop : span.stop - span.start = byteLength part := by omega
    rw [if_pos (by omega), ← hbefore, cutAt?_append, hbefore, hstop]
    simp only [Option.bind_eq_bind, Option.bind_some, cutAt?_append, Option.pure_def]

/-- The slice from the start to the end of a text is the text. -/
theorem slice?_whole (text : List Char) : slice? text ⟨0, byteLength text⟩ = some text :=
  slice?_eq_some.2 ⟨[], [], by rw [List.append_nil, List.nil_append], rfl, Nat.zero_add _⟩

/-- An offset at which a text can be cut: where a character begins, or at the end. -/
def IsCut (text : List Char) (n : Nat) : Prop := (cutAt? n text).isSome

instance (text : List Char) (n : Nat) : Decidable (IsCut text n) :=
  inferInstanceAs (Decidable (_ = true))

/-- A text can be cut where bytes of characters end. -/
theorem isCut_iff :
    IsCut text n ↔ ∃ before after, text = before ++ after ∧ byteLength before = n := by
  unfold IsCut
  rw [Option.isSome_iff_exists]
  constructor
  · rintro ⟨⟨before, after⟩, h⟩
    exact ⟨before, after, cutAt?_eq_some.1 h⟩
  · rintro ⟨before, after, h⟩
    exact ⟨(before, after), cutAt?_eq_some.2 h⟩

/-- Of two ways to take a text apart, one goes on where the other ends. -/
theorem append_eq_append_of_byteLength_le {a b c d : List Char} (h : a ++ b = c ++ d)
    (hle : byteLength a ≤ byteLength c) : ∃ between, c = a ++ between ∧ b = between ++ d := by
  rcases List.append_eq_append_iff.1 h with hafter | ⟨between, rfl, rfl⟩
  · exact hafter
  · rw [byteLength_append] at hle
    have hnil : between = [] := eq_nil_of_byteLength_eq_zero (by omega)
    subst hnil
    exact ⟨[], by rw [List.append_nil, List.append_nil], rfl⟩

/-- Between two cuts in order there is a slice. -/
theorem exists_slice (hle : span.start ≤ span.stop) (hstart : IsCut text span.start)
    (hstop : IsCut text span.stop) : ∃ part, slice? text span = some part := by
  obtain ⟨before, rest, rfl, hbefore⟩ := isCut_iff.1 hstart
  obtain ⟨upTo, after, htext, hupTo⟩ := isCut_iff.1 hstop
  obtain ⟨part, rfl, rfl⟩ := append_eq_append_of_byteLength_le htext (by omega)
  rw [byteLength_append] at hupTo
  exact ⟨part, slice?_eq_some.2 ⟨before, after, rfl, hbefore, by omega⟩⟩

/-- A cut of a text that lies in one of its slices is a cut of the slice. -/
theorem IsCut.sub_start {text part : List Char} (hpart : slice? text span = some part)
    (h : IsCut text n) (hstart : span.start ≤ n) (hstop : n ≤ span.stop) :
    IsCut part (n - span.start) := by
  obtain ⟨before, after, rfl, hbefore, hlength⟩ := slice?_eq_some.1 hpart
  obtain ⟨upTo, rest, htext, hupTo⟩ := isCut_iff.1 h
  obtain ⟨left, rfl, hrest⟩ := append_eq_append_of_byteLength_le htext (by omega)
  rw [byteLength_append] at hupTo
  -- The cut is before the end of the slice, so what is left of the slice follows it.
  obtain ⟨right, rfl, -⟩ := append_eq_append_of_byteLength_le hrest.symm (by omega)
  exact isCut_iff.2 ⟨left, right, rfl, by omega⟩

end Text

open Text

/-- One span lies in another. -/
def Span.Inside (inner outer : Span) : Prop :=
  outer.start ≤ inner.start ∧ inner.stop ≤ outer.stop

/-- One span ends before the other begins. -/
def Span.Before (a b : Span) : Prop := a.stop ≤ b.start

/-- Spans do not overlap. -/
def Span.Apart (a b : Span) : Prop := a.Before b ∨ b.Before a

instance (a b : Span) : Decidable (a.Inside b) := inferInstanceAs (Decidable (_ ∧ _))

instance (a b : Span) : Decidable (a.Before b) := inferInstanceAs (Decidable (_ ≤ _))

instance (a b : Span) : Decidable (a.Apart b) := inferInstanceAs (Decidable (_ ∨ _))

namespace Replacement

/-! ## Checked replacements -/

/-- Puts one replacement in place, unless an end of its span is no cut of the text, whose first byte
has the offset `base`. -/
def put? (base : Nat) (text : List Char) (r : Replacement) : Option (List Char) :=
  if base ≤ r.span.start ∧ r.span.start ≤ r.span.stop then do
    let (before, _) ← cutAt? (r.span.start - base) text
    let (_, after) ← cutAt? (r.span.stop - base) text
    return before ++ r.text ++ after
  else none

/-- Puts replacements in place from the last to the first, unless one does not fit when its turn
comes. -/
def putAll? (base : Nat) (text : List Char) (rs : List Replacement) : Option (List Char) :=
  (rs.mergeSort fun a b => decide (b.span.start ≤ a.span.start)).foldlM (put? base) text

variable {base : Nat} {text out : List Char}

/-- A replacement that fits is put in place as it is. -/
theorem apply_of_put? {r : Replacement} (h : put? base text r = some out) :
    apply base text r = out := by
  unfold put? at h
  split at h
  · simp only [Option.bind_eq_bind, Option.bind_eq_some_iff, Option.pure_def] at h
    obtain ⟨⟨before, _⟩, hstart, ⟨_, after⟩, hstop, hout⟩ := h
    cases hout
    unfold apply
    rw [cutNear_of_cutAt? hstart, cutNear_of_cutAt? hstop]
  · cases h

/-- Replacements that fit one after another are put in place as they are. -/
theorem foldl_apply_of_foldlM_put? {rs : List Replacement}
    (h : rs.foldlM (put? base) text = some out) : rs.foldl (apply base) text = out := by
  induction rs generalizing text with
  | nil => exact Option.some.inj h
  | cons r rs ih =>
    rw [List.foldlM_cons, Option.bind_eq_bind, Option.bind_eq_some_iff] at h
    obtain ⟨text', hr, hrs⟩ := h
    rw [List.foldl_cons, apply_of_put? hr]
    exact ih hrs

/-- Replacements that all fit are put in place as they are. -/
theorem applyAll_of_putAll? {rs : List Replacement} (h : putAll? base text rs = some out) :
    applyAll base text rs = out :=
  foldl_apply_of_foldlM_put? h

end Replacement

/-! ## Left to right -/

/-- `Rewrites offset text rs out`: the text, whose first byte has the offset `offset`, consists of
the stretches of the replacements, in order, and of what stands between them; `out` has the new
texts in place of the former and keeps the latter. -/
inductive Rewrites : Nat → List Char → List Replacement → List Char → Prop
  | rest (offset : Nat) (text : List Char) : Rewrites offset text [] text
  | next {offset : Nat} {between old text out : List Char} {r : Replacement}
      {rs : List Replacement} (hstart : offset + byteLength between = r.span.start)
      (hstop : r.span.start + byteLength old = r.span.stop)
      (h : Rewrites r.span.stop text rs out) :
      Rewrites offset (between ++ (old ++ text)) (r :: rs) (between ++ (r.text ++ out))

namespace Rewrites

variable {base offset : Nat} {text out : List Char} {rs : List Replacement}

/-- Replacements in order, put in place from the last to the first, leave what stands before them
alone and rewrite the rest from left to right. -/
theorem foldlM_put? (h : Rewrites offset text rs out) (before : List Char)
    (hbefore : base + byteLength before = offset) :
    rs.reverse.foldlM (Replacement.put? base) (before ++ text) = some (before ++ out) := by
  induction h generalizing before with
  | rest offset text => rfl
  | @next offset between old text out r rs hstart hstop h ih =>
    have hdone := ih (before ++ (between ++ old)) (by
      rw [byteLength_append, byteLength_append]
      omega)
    simp only [List.append_assoc] at hdone
    -- The first replacement comes last, when all that follows it has been rewritten.
    rw [List.reverse_cons, List.foldlM_append, hdone]
    have hbeforeOld : r.span.start - base = byteLength (before ++ between) := by
      rw [byteLength_append]
      omega
    have hafterOld : r.span.stop - base = byteLength (before ++ (between ++ old)) := by
      rw [byteLength_append, byteLength_append]
      omega
    have hcutStart := cutAt?_append (before ++ between) (old ++ out)
    have hcutStop := cutAt?_append (before ++ (between ++ old)) out
    simp only [List.append_assoc] at hcutStart hcutStop
    simp only [Option.bind_eq_bind, Option.bind_some, List.foldlM_cons, List.foldlM_nil,
      Replacement.put?, hbeforeOld, hafterOld, hcutStart, hcutStop, List.append_assoc]
    rw [if_pos (by omega)]
    rfl

end Rewrites

/-- The text from an offset on, with new texts in place of the stretches that they are for: the
slice up to each stretch as it is, and then the new text. The first byte of the text has the offset
`base`. -/
def leftToRight (base : Nat) (text : List Char) (offset : Nat) :
    List Replacement → Option (List Char)
  | [] => slice? text ⟨offset - base, byteLength text⟩
  | r :: rs => do
    let between ← slice? text ⟨offset - base, r.span.start - base⟩
    let rest ← leftToRight base text r.span.stop rs
    return between ++ (r.text ++ rest)

/-- A text is rewritten to its slices between the stretches, with the new texts between them. -/
theorem Rewrites.leftToRight_eq {base offset : Nat} {text out : List Char} {rs : List Replacement}
    (h : Rewrites offset text rs out) (before : List Char)
    (hbefore : base + byteLength before = offset) :
    leftToRight base (before ++ text) offset rs = some out := by
  induction h generalizing before with
  | rest offset text =>
    rw [leftToRight]
    refine slice?_eq_some.2 ⟨before, [], by rw [List.append_nil], by dsimp only; omega, ?_⟩
    rw [byteLength_append]
    dsimp only
    omega
  | @next offset between old text out r rs hstart hstop h ih =>
    have hrest := ih (before ++ (between ++ old)) (by
      rw [byteLength_append, byteLength_append]
      omega)
    have hbetween : slice? (before ++ (between ++ (old ++ text)))
        ⟨offset - base, r.span.start - base⟩ = some between :=
      slice?_eq_some.2 ⟨before, old ++ text, rfl, by dsimp only; omega, by dsimp only; omega⟩
    simp only [List.append_assoc] at hrest
    rw [leftToRight, hbetween, hrest]
    rfl

namespace Replacement

variable {base : Nat} {text out : List Char} {rs : List Replacement}

/-- Replacements in the order of their spans. -/
def ascending (rs : List Replacement) : List Replacement :=
  (rs.mergeSort fun a b => decide (b.span.start ≤ a.span.start)).reverse

/-- Replacements that rewrite a text in the order of their spans all fit, and do so in any order. -/
theorem putAll?_of_rewrites (h : Rewrites base text (ascending rs) out) :
    putAll? base text rs = some out := by
  have hfold := h.foldlM_put? [] (Nat.add_zero base)
  rw [ascending, List.reverse_reverse] at hfold
  exact hfold

/-- Replacements that rewrite a text in the order of their spans do so in any order. -/
theorem applyAll_of_rewrites (h : Rewrites base text (ascending rs) out) :
    applyAll base text rs = out :=
  applyAll_of_putAll? (putAll?_of_rewrites h)

/-- Sorting keeps the replacements. -/
theorem ascending_perm (rs : List Replacement) : (ascending rs).Perm rs :=
  (List.reverse_perm _).trans (List.mergeSort_perm _ _)

/-- Sorted replacements start one after the other. -/
theorem pairwise_ascending (rs : List Replacement) :
    (ascending rs).Pairwise fun a b => a.span.start ≤ b.span.start := by
  unfold ascending
  rw [List.pairwise_reverse]
  refine (List.pairwise_mergeSort ?_ ?_ rs).imp fun h => of_decide_eq_true h
  · intro a b c hab hbc
    exact decide_eq_true (Nat.le_trans (of_decide_eq_true hbc) (of_decide_eq_true hab))
  · intro a b
    rw [Bool.or_eq_true, decide_eq_true_iff, decide_eq_true_iff]
    exact Nat.le_total _ _

/-- There is one strict order of the spans, and replacements are put into it. -/
theorem ascending_eq_of_perm {sorted : List Replacement} (hperm : sorted.Perm rs)
    (hsorted : sorted.Pairwise fun a b => a.span.start < b.span.start) :
    ascending rs = sorted := by
  have hsame : (ascending rs).Perm sorted := (ascending_perm rs).trans hperm.symm
  have hdistinct : (ascending rs).Pairwise fun a b => a.span.start ≠ b.span.start :=
    (hsorted.imp fun hlt => Nat.ne_of_lt hlt).perm hsame.symm fun hne => hne.symm
  have hstrict : (ascending rs).Pairwise fun a b => a.span.start < b.span.start :=
    ((pairwise_ascending rs).and hdistinct).imp fun h => Nat.lt_of_le_of_ne h.1 h.2
  exact hsame.eq_of_pairwise (fun _ _ _ _ hab hba => absurd hba (Nat.lt_asymm hab)) hstrict hsorted

/-- Replacements that are in the order of their spans already stay in it. -/
theorem ascending_of_pairwise (h : rs.Pairwise fun a b => a.span.start < b.span.start) :
    ascending rs = rs :=
  ascending_eq_of_perm (.refl rs) h

/-- Replacements whose spans are in order and fit a text, whose first byte has the offset
`base + byteLength before`, rewrite it. -/
theorem exists_rewrites_of_pairwise (before : List Char)
    (hinside : ∀ r ∈ rs, base + byteLength before ≤ r.span.start ∧ r.span.start ≤ r.span.stop)
    (hcut : ∀ r ∈ rs, IsCut (before ++ text) (r.span.start - base) ∧
      IsCut (before ++ text) (r.span.stop - base))
    (horder : rs.Pairwise fun a b => a.span.Before b.span) :
    ∃ out, Rewrites (base + byteLength before) text rs out := by
  induction rs generalizing before text with
  | nil => exact ⟨text, .rest _ _⟩
  | cons r rs ih =>
    obtain ⟨hstart, hle⟩ := hinside r (.head _)
    obtain ⟨hcutStart, hcutStop⟩ := hcut r (.head _)
    obtain ⟨upToStart, afterStart, htextStart, hlengthStart⟩ := isCut_iff.1 hcutStart
    obtain ⟨upToStop, rest, htextStop, hlengthStop⟩ := isCut_iff.1 hcutStop
    -- The two cuts take the text apart into what is before the span, what is in it, and the rest.
    obtain ⟨between, rfl, rfl⟩ := append_eq_append_of_byteLength_le htextStart (by omega)
    rw [← List.append_assoc] at htextStop
    obtain ⟨old, rfl, rfl⟩ := append_eq_append_of_byteLength_le htextStop (by omega)
    simp only [byteLength_append] at hlengthStart hlengthStop
    have hnext : base + byteLength (before ++ (between ++ old)) = r.span.stop := by
      simp only [byteLength_append]
      omega
    obtain ⟨hbefore, hordered⟩ := List.pairwise_cons.1 horder
    obtain ⟨out, hout⟩ := ih (before ++ (between ++ old))
      (fun r' hr' => by
        have hstop : r.span.stop ≤ r'.span.start := hbefore r' hr'
        have hinside' := hinside r' (List.mem_cons_of_mem r hr')
        omega)
      (fun r' hr' => by
        have hcut' := hcut r' (List.mem_cons_of_mem r hr')
        simpa only [List.append_assoc] using hcut')
      hordered
    rw [hnext] at hout
    exact ⟨_, .next (by omega) (by omega) hout⟩

/-- Replacements fit a text whose first byte has the offset `base`: they begin and end at cuts, in
order, no two at one offset, and do not overlap. -/
structure Fit (base : Nat) (text : List Char) (rs : List Replacement) : Prop where
  inside : ∀ r ∈ rs, base ≤ r.span.start ∧ r.span.start ≤ r.span.stop
  cut : ∀ r ∈ rs, IsCut text (r.span.start - base) ∧ IsCut text (r.span.stop - base)
  apart : rs.Pairwise fun a b => a.span.start ≠ b.span.start ∧ a.span.Apart b.span

/-- Replacements that fit a text rewrite it, in the order of their spans. -/
theorem Fit.exists_rewrites (h : Fit base text rs) :
    ∃ out, Rewrites base text (ascending rs) out := by
  have hmem : ∀ r ∈ ascending rs, r ∈ rs := fun r hr => (ascending_perm rs).mem_iff.1 hr
  have hapart := h.apart.perm (ascending_perm rs).symm fun hab => ⟨hab.1.symm, hab.2.symm⟩
  have horder : (ascending rs).Pairwise fun a b => a.span.Before b.span := by
    refine ((pairwise_ascending rs).and hapart).imp_of_mem fun {a b} ha hb hab => ?_
    obtain ⟨hle, hne, hbefore | hbefore⟩ := hab
    · exact hbefore
    · -- The other order would have `b` end, and so begin, before `a`.
      have hb := (h.inside b (hmem b hb)).2
      unfold Span.Before at hbefore
      omega
  exact exists_rewrites_of_pairwise [] (fun r hr => h.inside r (hmem r hr))
    (fun r hr => h.cut r (hmem r hr)) horder

/-- Replacements that fit a text can all be put in place. -/
theorem Fit.putAll?_eq (h : Fit base text rs) :
    putAll? base text rs = some (applyAll base text rs) := by
  obtain ⟨out, hout⟩ := h.exists_rewrites
  rw [applyAll_of_rewrites hout]
  exact putAll?_of_rewrites hout

end Replacement

end MarkupCompiler
