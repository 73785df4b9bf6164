import MarkupCompiler.Proofs.Layout

/-!
# Well-formed layouts

A layout is well formed over a text if every part begins and ends between characters of the text and
lies in the part that it belongs to, tokens, functions and markup are not empty, markup that is not
nested is apart, and the body of a function comes after its parameters.

Code is then spliced into a stretch of the source without harm (`Spliceable`). A stretch is a whole
part, or a function up to its body. The markup that is looked for in it is exactly the outermost
markup that lies in it, and whatever code comes in its place, each offset fits when its turn comes.
-/

namespace MarkupCompiler

open Text Syntax

namespace Layout

/-! ## Well-formedness -/

/-- A part stands soundly in a text, as far as it and its parts are concerned. -/
structure Sound (text : List Char) (x : Layout) : Prop where
  order : x.span.start ≤ x.span.stop
  cut : IsCut text x.span.start ∧ IsCut text x.span.stop
  inside : ∀ part ∈ x.parts, part.span.Inside x.span
  nonempty : x.kind ≠ .plain → x.span.start < x.span.stop
  markupApart : (outermostOf isMarkup x.parts).Pairwise fun a b => a.span.Apart b.span
  bodyLast : x.kind = .function → x.parts.Pairwise fun a b => a.span.Before b.span

instance (text : List Char) (x : Layout) : Decidable (x.Sound text) :=
  decidable_of_iff (x.span.start ≤ x.span.stop ∧
    (IsCut text x.span.start ∧ IsCut text x.span.stop) ∧
    (∀ part ∈ x.parts, part.span.Inside x.span) ∧
    (x.kind ≠ .plain → x.span.start < x.span.stop) ∧
    ((outermostOf isMarkup x.parts).Pairwise fun a b => a.span.Apart b.span) ∧
    (x.kind = .function → x.parts.Pairwise fun a b => a.span.Before b.span))
    ⟨fun ⟨h₁, h₂, h₃, h₄, h₅, h₆⟩ => ⟨h₁, h₂, h₃, h₄, h₅, h₆⟩,
      fun h => ⟨h.order, h.cut, h.inside, h.nonempty, h.markupApart, h.bodyLast⟩⟩

/-- A part and all parts in it stand soundly in a text. -/
def WellFormed (text : List Char) (x : Layout) : Prop := ∀ y ∈ x.nodes, y.Sound text

instance (text : List Char) (x : Layout) : Decidable (x.WellFormed text) :=
  inferInstanceAs (Decidable (∀ y ∈ x.nodes, _))

namespace WellFormed

variable {text : List Char} {x y : Layout}

/-- A part of a well-formed part is well formed. -/
theorem of_mem (h : x.WellFormed text) (hy : y ∈ x.nodes) : y.WellFormed text :=
  fun z hz => h z (mem_nodes_trans hz hy)

/-- A layout that is well formed throughout is sound. -/
theorem sound (h : x.WellFormed text) : x.Sound text := h x x.mem_nodes_self

/-- All parts of a part lie in it. -/
theorem inside (h : x.WellFormed text) (hy : y ∈ x.nodes) : y.span.Inside x.span := by
  induction x with
  | mk kind span parts ih =>
    rw [nodes_eq, List.mem_cons] at hy
    rcases hy with rfl | hy
    · exact ⟨Nat.le_refl _, Nat.le_refl _⟩
    · obtain ⟨part, hpart, hy⟩ := mem_inner_iff.1 hy
      have hwf : part.WellFormed text :=
        h.of_mem (mem_nodes_of_mem_inner (mem_inner_of_mem_parts hpart))
      have houter : part.span.Inside (mk kind span parts).span := h.sound.inside part hpart
      have hinner : y.span.Inside part.span := ih part hpart hwf hy
      exact ⟨Nat.le_trans houter.1 hinner.1, Nat.le_trans hinner.2 houter.2⟩

/-- Markup is not empty. -/
theorem lt_of_isMarkup (h : x.WellFormed text) (hy : y ∈ x.nodes) (hmarkup : y.isMarkup = true) :
    y.span.start < y.span.stop := by
  refine (h y hy).nonempty fun hplain => ?_
  rw [isMarkup, hplain] at hmarkup
  cases hmarkup

/-- The outermost markup of a part is apart. -/
theorem outermost_apart (h : x.WellFormed text) :
    (x.outermost isMarkup).Pairwise fun a b => a.span.Apart b.span := by
  cases hmarkup : x.isMarkup with
  | true =>
    rw [outermost_of_pos hmarkup]
    exact List.pairwise_singleton _ _
  | false =>
    rw [outermost_of_neg hmarkup]
    exact h.sound.markupApart

end WellFormed

/-- Whether a part is markup that lies in a stretch. -/
def isMarkupIn (span : Span) (x : Layout) : Bool := x.isMarkup && decide (x.span.Inside span)

/-- Inside a span, markup is markup in the span. -/
theorem isMarkupIn_of_inside {span : Span} {x : Layout} (h : x.span.Inside span) :
    x.isMarkupIn span = x.isMarkup := by
  rw [isMarkupIn, decide_eq_true h, Bool.and_true]

/-- All markup of a part lies in the stretches that the part lies in. -/
theorem WellFormed.outermost_isMarkupIn {text : List Char} {x : Layout} {span : Span}
    (h : x.WellFormed text) (hinside : x.span.Inside span) :
    x.outermost (isMarkupIn span) = x.outermost isMarkup := by
  refine outermost_congr fun y hy => isMarkupIn_of_inside ?_
  have hy := h.inside hy
  exact ⟨Nat.le_trans hinside.1 hy.1, Nat.le_trans hy.2 hinside.2⟩

/-- No markup of a part lies in a stretch that is apart from it. -/
theorem WellFormed.outermost_isMarkupIn_of_apart {text : List Char} {x : Layout}
    {span outer : Span} (h : x.WellFormed text) (hinside : span.Inside outer)
    (hapart : x.span.Apart outer) : x.outermost (isMarkupIn span) = [] := by
  refine outermost_eq_nil fun y hy => ?_
  cases hmarkup : y.isMarkup with
  | false => rw [isMarkupIn, hmarkup, Bool.false_and]
  | true =>
    -- Markup is not empty, so it cannot lie in both.
    have hlt := h.lt_of_isMarkup hy hmarkup
    have hy := h.inside hy
    rw [isMarkupIn, hmarkup, Bool.true_and, decide_eq_false_iff_not]
    intro hspan
    unfold Span.Apart Span.Before at hapart
    unfold Span.Inside at hinside hy hspan
    omega

end Layout

/-! ## Splicing -/

open Layout

/-- Code can be spliced into a stretch of a part in place of markup. The markup is the outermost
markup of the part that lies in the stretch, no two pieces of it overlap, and whatever comes in its
place, every replacement fits the text when its turn comes. -/
structure Spliceable (text : List Char) (x : Layout) (span : Span) (markups : List Markup) :
    Prop where
  outermost : markups.map Markup.layout = x.outermost (isMarkupIn span)
  apart : (markups.map Markup.span).Pairwise Span.Apart
  fit : ∃ part, slice? text span = some part ∧
    ∀ rs : List Replacement, rs.map Replacement.span = markups.map Markup.span →
      Replacement.putAll? span.start part rs = some (Replacement.applyAll span.start part rs)

namespace Layout.WellFormed

variable {text : List Char} {x : Layout} {span : Span} {markups : List Markup}

/-- The markup of a part is where its layout says. -/
theorem markup_spans (hmarkups : markups.map Markup.layout = x.outermost isMarkup) :
    markups.map Markup.span = (x.outermost isMarkup).map Layout.span := by
  rw [← hmarkups, List.map_map]
  exact List.map_congr_left fun m _ => m.span_layout.symm

/-- The spans of the markup of a part do not overlap. -/
theorem spans_apart (h : x.WellFormed text)
    (hmarkups : markups.map Markup.layout = x.outermost isMarkup) :
    (markups.map Markup.span).Pairwise Span.Apart := by
  rw [markup_spans hmarkups]
  exact h.outermost_apart.map Layout.span fun _ _ hab => hab

/-- Replacements for the markup of a part fit a stretch of the text that the part lies in. -/
theorem replacements_fit (h : x.WellFormed text)
    (hmarkups : markups.map Markup.layout = x.outermost isMarkup) (hinside : x.span.Inside span)
    {part : List Char} (hpart : slice? text span = some part) {rs : List Replacement}
    (hrs : rs.map Replacement.span = markups.map Markup.span) :
    Replacement.Fit span.start part rs := by
  -- Each replacement stands for a piece of markup, which is somewhere in the part.
  have hpiece : ∀ r ∈ rs, ∃ y ∈ x.nodes, y.isMarkup = true ∧ y.span = r.span := by
    intro r hr
    have hspan : r.span ∈ (x.outermost isMarkup).map Layout.span := by
      rw [← markup_spans hmarkups, ← hrs]
      exact List.mem_map_of_mem hr
    obtain ⟨y, hy, hyr⟩ := List.mem_map.1 hspan
    obtain ⟨hmem, hmarkup⟩ := mem_of_mem_outermost hy
    exact ⟨y, hmem, hmarkup, hyr⟩
  have hnonempty : ∀ r ∈ rs, r.span.start < r.span.stop := by
    intro r hr
    obtain ⟨y, hmem, hmarkup, hyr⟩ := hpiece r hr
    rw [← hyr]
    exact h.lt_of_isMarkup hmem hmarkup
  have hin : ∀ r ∈ rs, span.start ≤ r.span.start ∧ r.span.stop ≤ span.stop := by
    intro r hr
    obtain ⟨y, hmem, -, hyr⟩ := hpiece r hr
    have hy := h.inside hmem
    rw [hyr] at hy
    exact ⟨Nat.le_trans hinside.1 hy.1, Nat.le_trans hy.2 hinside.2⟩
  refine ⟨fun r hr => ⟨(hin r hr).1, Nat.le_of_lt (hnonempty r hr)⟩, fun r hr => ?_, ?_⟩
  · obtain ⟨y, hmem, -, hyr⟩ := hpiece r hr
    have hcut := (h y hmem).cut
    rw [hyr] at hcut
    have hle := hnonempty r hr
    have hr := hin r hr
    exact ⟨hcut.1.sub_start hpart (by omega) (by omega),
      hcut.2.sub_start hpart (by omega) (by omega)⟩
  · have hapart : (rs.map Replacement.span).Pairwise Span.Apart := by
      rw [hrs]
      exact h.spans_apart hmarkups
    refine (List.pairwise_map.1 hapart).imp_of_mem fun {a b} ha hb hab => ⟨?_, hab⟩
    -- Spans that do not overlap and are not empty begin at different offsets.
    have hane := hnonempty a ha
    have hbne := hnonempty b hb
    unfold Span.Apart Span.Before at hab
    omega

/-- Code can be spliced into a stretch of the text, given where the stretch is cut out and which
markup of a part of it is in the stretch. -/
theorem spliceable (h : x.WellFormed text) {owner : Layout}
    (hmarkups : markups.map Markup.layout = x.outermost isMarkup)
    (howner : owner.outermost (isMarkupIn span) = x.outermost isMarkup)
    (hinside : x.span.Inside span) (hle : span.start ≤ span.stop) (hstart : IsCut text span.start)
    (hstop : IsCut text span.stop) : Spliceable text owner span markups := by
  obtain ⟨part, hpart⟩ := exists_slice hle hstart hstop
  refine ⟨hmarkups.trans howner.symm, h.spans_apart hmarkups, part, hpart, fun rs hrs => ?_⟩
  exact (h.replacements_fit hmarkups hinside hpart hrs).putAll?_eq

/-- Code can be spliced into a whole part in place of its markup. -/
theorem spliceable_whole (h : x.WellFormed text)
    (hmarkups : markups.map Markup.layout = x.outermost isMarkup) :
    Spliceable text x x.span markups :=
  h.spliceable hmarkups (h.outermost_isMarkupIn ⟨Nat.le_refl _, Nat.le_refl _⟩)
    ⟨Nat.le_refl _, Nat.le_refl _⟩ h.sound.order h.sound.cut.1 h.sound.cut.2

/-- Code can be spliced into a function up to its body, in place of the markup of its parameters. -/
theorem spliceable_head {params body : Layout}
    (h : (Layout.mk .function span [params, body]).WellFormed text)
    (hmarkups : markups.map Markup.layout = params.outermost isMarkup) :
    Spliceable text (.mk .function span [params, body]) ⟨span.start, body.span.start⟩ markups := by
  have hmem : ∀ part ∈ [params, body], part ∈ (Layout.mk .function span [params, body]).nodes :=
    fun part hpart => mem_nodes_of_mem_inner (mem_inner_of_mem_parts hpart)
  have hparams := h.of_mem (hmem params (by simp))
  have hbody := h.of_mem (hmem body (by simp))
  have hbefore : params.span.stop ≤ body.span.start :=
    (List.pairwise_cons.1 (h.sound.bodyLast rfl)).1 body (by simp)
  have hparamsIn : params.span.Inside span := h.sound.inside params (by simp [Layout.parts])
  have hbodyIn : body.span.Inside span := h.sound.inside body (by simp [Layout.parts])
  have hinside : params.span.Inside ⟨span.start, body.span.start⟩ := ⟨hparamsIn.1, hbefore⟩
  refine hparams.spliceable hmarkups ?_ hinside hbodyIn.1 h.sound.cut.1 hbody.sound.cut.1
  -- What lies in the stretch is in the parameters, for the body begins where the stretch ends.
  have hapart : body.span.Apart ⟨span.start, body.span.start⟩ := .inr (Nat.le_refl _)
  rw [outermost_of_neg rfl, Layout.parts, outermostOf_cons, outermostOf_cons, outermostOf_nil,
    hparams.outermost_isMarkupIn hinside,
    hbody.outermost_isMarkupIn_of_apart ⟨Nat.le_refl _, Nat.le_refl _⟩ hapart,
    List.append_nil, List.append_nil]

end Layout.WellFormed

namespace Syntax.Stretch.Of

variable {text : List Char} {stretch : Stretch} {x : Layout}

/-- A stretch lies in the part that it belongs to. -/
theorem inside (h : stretch.Of x) (hwf : x.WellFormed text) : stretch.span.Inside x.span := by
  rcases h.cases with ⟨hspan, -⟩ | ⟨span, params, body, rfl, hspan, -⟩
  · rw [hspan]
    exact ⟨Nat.le_refl _, Nat.le_refl _⟩
  · have hbody : body ∈ (Layout.mk .function span [params, body]).parts := by simp [Layout.parts]
    have hinside := hwf.sound.inside body hbody
    have horder := (hwf body (mem_nodes_of_mem_inner (mem_inner_of_mem_parts hbody))).order
    rw [hspan]
    exact ⟨Nat.le_refl _, Nat.le_trans horder hinside.2⟩

/-- Code can be spliced into a stretch in place of its markup. -/
theorem spliceable (h : stretch.Of x) (hwf : x.WellFormed text) :
    Spliceable text x stretch.span stretch.markups := by
  rcases h.cases with ⟨hspan, hmarkups⟩ | ⟨span, params, body, rfl, hspan, hmarkups⟩
  · rw [hspan]
    exact hwf.spliceable_whole hmarkups
  · rw [hspan]
    exact hwf.spliceable_head hmarkups

end Syntax.Stretch.Of

/-! ## Stretches in the module

Well-formedness leaves open that other parts of the module reach into a stretch. If parts are apart
and markup begins before what is in it, as when they are read one after another, then the markup of
a stretch is also the outermost markup of the whole module that lies in it. -/

namespace Layout

/-- The parts of a part are apart, and begin after the part if it is markup. -/
structure Separate (x : Layout) : Prop where
  apart : x.parts.Pairwise fun a b => a.span.Apart b.span
  begins : x.isMarkup = true → ∀ part ∈ x.parts, x.span.start < part.span.start

instance (x : Layout) : Decidable x.Separate :=
  decidable_of_iff ((x.parts.Pairwise fun a b => a.span.Apart b.span) ∧
    (x.isMarkup = true → ∀ part ∈ x.parts, x.span.start < part.span.start))
    ⟨fun h => ⟨h.1, h.2⟩, fun h => ⟨h.apart, h.begins⟩⟩

/-- In a part, and in all parts in it, the parts are apart. -/
def Separated (x : Layout) : Prop := ∀ y ∈ x.nodes, y.Separate

instance (x : Layout) : Decidable x.Separated := inferInstanceAs (Decidable (∀ y ∈ x.nodes, _))

/-- No markup of several parts lies in a stretch that is apart from them. -/
theorem outermostOf_isMarkupIn_of_apart {text : List Char} {xs : List Layout} {span outer : Span}
    (hwf : ∀ x ∈ xs, x.WellFormed text) (hinside : span.Inside outer)
    (hapart : ∀ x ∈ xs, x.span.Apart outer) : outermostOf (isMarkupIn span) xs = [] := by
  rw [outermostOf_eq_flatMap, List.flatMap_eq_nil_iff]
  exact fun x hx => (hwf x hx).outermost_isMarkupIn_of_apart hinside (hapart x hx)

/-- The outermost markup in a stretch of a part is the same for the part and for any part that it
is in. -/
theorem WellFormed.outermost_isMarkupIn_of_mem {text : List Char} {root x : Layout} {span : Span}
    (hwf : root.WellFormed text) (hseparated : root.Separated) (hx : x ∈ root.nodes)
    (hinside : span.Inside x.span) :
    root.outermost (isMarkupIn span) = x.outermost (isMarkupIn span) := by
  induction root with
  | mk kind outer parts ih =>
    rw [nodes_eq, List.mem_cons] at hx
    rcases hx with rfl | hx
    · rfl
    · obtain ⟨part, hpart, hxMem⟩ := mem_inner_iff.1 hx
      have hmem : ∀ y ∈ parts, y ∈ (mk kind outer parts).nodes := fun y hy =>
        mem_nodes_of_mem_inner (mem_inner_of_mem_parts hy)
      have hpartWf := hwf.of_mem (hmem part hpart)
      have hxPart := hpartWf.inside hxMem
      have hspanPart : span.Inside part.span :=
        ⟨Nat.le_trans hxPart.1 hinside.1, Nat.le_trans hinside.2 hxPart.2⟩
      have hself := hseparated _ (mem_nodes_self _)
      -- The part around begins before the stretch if it is markup.
      have hnot : isMarkupIn span (mk kind outer parts) = false := by
        cases hmarkup : isMarkup (mk kind outer parts) with
        | false => rw [isMarkupIn, hmarkup, Bool.false_and]
        | true =>
          have hbegins := hself.begins hmarkup part hpart
          rw [isMarkupIn, hmarkup, Bool.true_and, decide_eq_false_iff_not]
          intro houter
          have hstart := houter.1
          have hpartStart := hspanPart.1
          omega
      -- Of its parts only the one with the stretch has markup in the stretch.
      obtain ⟨before, after, rfl⟩ := List.append_of_mem hpart
      obtain ⟨-, hafter, hbefore⟩ := List.pairwise_append.1 hself.apart
      have hbeforeNil : outermostOf (isMarkupIn span) before = [] :=
        outermostOf_isMarkupIn_of_apart
          (fun y hy => hwf.of_mem (hmem y (List.mem_append_left _ hy))) hspanPart
          (fun y hy => hbefore y hy part (.head _))
      have hafterNil : outermostOf (isMarkupIn span) after = [] :=
        outermostOf_isMarkupIn_of_apart
          (fun y hy => hwf.of_mem
            (hmem y (List.mem_append_right _ (List.mem_cons_of_mem _ hy)))) hspanPart
          (fun y hy => ((List.pairwise_cons.1 hafter).1 y hy).symm)
      have hseparatedPart : part.Separated := fun y hy =>
        hseparated y (mem_nodes_trans hy (hmem part hpart))
      rw [outermost_of_neg hnot, Layout.parts, outermostOf_append, outermostOf_cons, hbeforeNil,
        hafterNil, List.nil_append, List.append_nil]
      exact ih part hpart hpartWf hseparatedPart hxMem

end Layout

/-- Code that can be spliced into a stretch of a part of a separated whole can be spliced into it as
a stretch of the whole. -/
theorem Spliceable.of_mem {text : List Char} {root x : Layout} {span : Span}
    {markups : List Markup} (h : Spliceable text x span markups) (hwf : root.WellFormed text)
    (hseparated : root.Separated) (hx : x ∈ root.nodes) (hinside : span.Inside x.span) :
    Spliceable text root span markups :=
  ⟨h.outermost.trans (hwf.outermost_isMarkupIn_of_mem hseparated hx hinside).symm, h.apart, h.fit⟩

end MarkupCompiler
