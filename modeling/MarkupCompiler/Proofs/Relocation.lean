import MarkupCompiler.Proofs.Totality

/-!
# Code does not depend on where a tree stands

A tree over a text is moved along when text is put in front of the text or behind it. What emitters
take out of the text for the tree is then found at the offsets of the moved tree, and code that they
splice into a stretch goes to the same places of the stretch. So they make the same code of the
moved tree, from the same table of templates, and leave the same table
(`code_independent_of_place`).
-/

namespace MarkupCompiler

open Syntax Text Layout

/-! ## Texts in longer texts -/

/-- A text with text in front of it and behind it. -/
structure Placement where
  before : List Char
  text : List Char
  after : List Char

namespace Placement

/-- The whole text. -/
def whole (place : Placement) : List Char := place.before ++ place.text ++ place.after

/-- The offset at which the text in the middle begins. -/
def offset (place : Placement) : Nat := byteLength place.before

/-- A slice of the text is a slice of the whole text at a later offset. -/
theorem slice?_whole {place : Placement} {span : Span} {part : List Char}
    (h : slice? place.text span = some part) :
    slice? place.whole (span.shift place.offset) = some part := by
  obtain ⟨before, after, htext, hstart, hstop⟩ := slice?_eq_some.1 h
  refine slice?_eq_some.2 ⟨place.before ++ before, after ++ place.after, ?_, ?_, ?_⟩
  · rw [whole, htext]
    simp only [List.append_assoc]
  · rw [byteLength_append, hstart, offset, Span.shift, Nat.add_comm]
  · dsimp only [Span.shift]
    omega

end Placement

/-- A replacement that is moved. -/
def Replacement.shift (k : Nat) (r : Replacement) : Replacement := ⟨r.span.shift k, r.text⟩

/-- Replacements that are moved with the text that they are for go to the same places of it. -/
theorem Replacement.applyAll_shift (k base : Nat) (text : List Char) (rs : List Replacement) :
    applyAll (base + k) text (rs.map (Replacement.shift k)) = applyAll base text rs := by
  have hsort : (rs.map (Replacement.shift k)).mergeSort
      (fun a b => decide (b.span.start ≤ a.span.start)) =
      (rs.mergeSort fun a b => decide (b.span.start ≤ a.span.start)).map (Replacement.shift k) := by
    refine (List.map_mergeSort fun a _ b _ => ?_).symm
    simp [Replacement.shift, Span.shift]
  have happly : ∀ text r, apply (base + k) text (r.shift k) = apply base text r := by
    intro text r
    simp [apply, Replacement.shift, Span.shift, Nat.add_sub_add_right]
  unfold applyAll
  rw [hsort, List.foldl_map]
  simp only [happly]

/-- Codes for markup that is moved replace it where it stands. -/
theorem replacementsFor_shift (k : Nat) (markups : List Markup) (codes : List String) :
    replacementsFor (markups.map (Markup.shift k)) codes =
      (replacementsFor markups codes).map (Replacement.shift k) := by
  unfold replacementsFor
  rw [List.zipWith_map_left, List.map_zipWith]
  simp only [Replacement.shift, Markup.span_shift]

/-- Code is spliced into a stretch by emitting it for all markup there and then putting it in
place. -/
theorem Emitters.splice_eq (g : Emitters) (stretch : Stretch) :
    g.splice stretch = do
      let text ← sourceText stretch.span
      let codes ← stretch.markups.mapM g.markup
      return String.ofList (Replacement.applyAll stretch.span.start text.toList
        (replacementsFor stretch.markups codes)) := by
  have hreplacements : ∀ markups : List Markup,
      (markups.mapM fun m => return ⟨m.span, (← g.markup m).toList⟩ : Emit (List Replacement)) =
        markups.mapM g.markup >>= fun codes => pure (replacementsFor markups codes) := by
    intro markups
    induction markups with
    | nil => rfl
    | cons m markups ih =>
      rw [List.mapM_cons, List.mapM_cons, ih]
      simp only [bind_assoc, pure_bind]
      rfl
  unfold Emitters.splice
  rw [hreplacements]
  simp only [bind_assoc, pure_bind]

/-! ## Computations on a moved tree -/

/-- Two computations do the same, one on a text and the other on the whole that it stands in. -/
def Emit.Moved (place : Placement) (α : Type) (p p' : Emit α) : Prop :=
  ∀ (options : CompileOptions) (table : TemplateTable),
    p.runFrom ⟨place.text, options⟩ table = p'.runFrom ⟨place.whole, options⟩ table

namespace Emit.Moved

variable {place : Placement}

/-- That two computations do the same goes over to sequences. -/
theorem relation (place : Placement) : Emit.Relation (Moved place) where
  pure _ _ _ := rfl
  bind {α β p p' f f'} hp hf options table := by
    rw [runFrom_bind, runFrom_bind, ← hp options table]
    rcases p.runFrom ⟨place.text, options⟩ table with ⟨e | a, table₁⟩
    · rfl
    · exact hf a options table₁
  options hf options table := hf ⟨place.text, options⟩ ⟨place.whole, options⟩ rfl options table
  intern _ _ _ := rfl

/-- A text is found at the later offset. -/
theorem sourceText {span : Span} {part : List Char} (h : slice? place.text span = some part) :
    Moved place String (sourceText span) (sourceText (span.shift place.offset)) := by
  intro options table
  rw [runFrom_sourceText h, runFrom_sourceText (Placement.slice?_whole h)]

/-- A token is found at the later offset. -/
theorem tokenText {span : Span} {part : List Char} (h : slice? place.text span = some part)
    (hlt : span.start < span.stop) :
    Moved place String (tokenText span) (tokenText (span.shift place.offset)) := by
  have hne : ¬(span.start == span.stop) = true := by
    rw [beq_iff_eq]
    omega
  have hne' : ¬((span.shift place.offset).start == (span.shift place.offset).stop) = true := by
    rw [beq_iff_eq]
    dsimp only [Span.shift]
    omega
  unfold MarkupCompiler.tokenText
  rw [if_neg hne, if_neg hne']
  exact sourceText h

end Emit.Moved

/-- What emitters do with the source of a well-formed tree, they do with that of the moved tree:
texts are found at the later offsets, and code is spliced into a stretch at the same places. -/
theorem Layout.WellFormed.relateSource {place : Placement} {x : Layout}
    (h : x.WellFormed place.text) :
    Emitters.RelateSource (Emit.Moved place) place.offset x where
  toRelation := Emit.Moved.relation place
  source y hy := by
    obtain ⟨part, hpart⟩ := (h y hy).exists_slice
    exact Emit.Moved.sourceText hpart
  token y hy hkind := by
    obtain ⟨part, hpart⟩ := (h y hy).exists_slice
    exact Emit.Moved.tokenText hpart ((h y hy).nonempty hkind)
  splice y hy stretch hof hmarkups := by
    have hrelation := Emit.Moved.relation place
    obtain ⟨part, hpart, -⟩ := (hof.spliceable (h.of_mem hy)).fit
    have hsource : Emit.Moved place String (sourceText stretch.span)
        (sourceText (stretch.shift place.offset).span) := by
      rw [stretch.span_shift]
      exact Emit.Moved.sourceText hpart
    have hcodes : Emit.Moved place (List String) (stretch.markups.mapM emitMarkup)
        ((stretch.shift place.offset).markups.mapM emitMarkup) := by
      rw [stretch.markups_shift]
      exact hrelation.mapM hmarkups
    rw [Emitters.splice_eq, Emitters.splice_eq]
    refine hrelation.bind hsource fun text => hrelation.bind hcodes fun codes => ?_
    rw [stretch.markups_shift, replacementsFor_shift, stretch.span_shift]
    dsimp only [Span.shift]
    rw [Replacement.applyAll_shift]
    exact hrelation.pure _

/-- Where a tree stands makes no difference to its code. If text is put in front of a text and
behind it, and a well-formed tree over the text is moved along, its code is the same, and so is the
table of templates that is left. -/
theorem code_independent_of_place (before text after : List Char) (options : CompileOptions)
    (table : TemplateTable) :
    (∀ (c : Context) (e : Expr), e.layout.WellFormed text → ∃ code table',
      (emitExpr c e).runFrom ⟨text, options⟩ table = (.ok code, table') ∧
      (emitExpr c (e.shift (byteLength before))).runFrom ⟨before ++ text ++ after, options⟩ table =
        (.ok code, table')) ∧
    (∀ m : Markup, m.layout.WellFormed text → ∃ code table',
      (emitMarkup m).runFrom ⟨text, options⟩ table = (.ok code, table') ∧
      (emitMarkup (m.shift (byteLength before))).runFrom ⟨before ++ text ++ after, options⟩ table =
        (.ok code, table')) := by
  refine ⟨fun c e he => ?_, fun m hm => ?_⟩
  · obtain ⟨code, table', hrun⟩ :=
      (he.keepSource.emit e.layout.mem_nodes_self).expr c e rfl options table
    have hrelate : Emitters.RelateSource (Emit.Moved ⟨before, text, after⟩) _ e.layout :=
      Layout.WellFormed.relateSource he
    have hmoved := (hrelate.emit e.layout.mem_nodes_self).expr c e rfl options table
    exact ⟨code, table', hrun, hmoved.symm.trans hrun⟩
  · obtain ⟨code, table', hrun⟩ :=
      (hm.keepSource.emit m.layout.mem_nodes_self).markup m rfl options table
    have hrelate : Emitters.RelateSource (Emit.Moved ⟨before, text, after⟩) _ m.layout :=
      Layout.WellFormed.relateSource hm
    have hmoved := (hrelate.emit m.layout.mem_nodes_self).markup m rfl options table
    exact ⟨code, table', hrun, hmoved.symm.trans hrun⟩

/-- A function with a paragraph in its body, as the text `()=>{<p/>}`. -/
def paragraphFunction : Expr :=
  .arrow ⟨0, 10⟩ false ⟨0, 2⟩ []
    (.block ⟨4, 10⟩ [.expr ⟨5, 9⟩ (.markup (.element ⟨⟨5, 9⟩, .plain "p", [], []⟩))])

/-- The function behind a character of two bytes and in front of other text. -/
theorem code_independent_of_place_function :
    paragraphFunction.layout.WellFormed "()=>\x7b<p/>\x7d".toList ∧ ∃ code table',
      (emitExpr .plain paragraphFunction).runFrom ⟨"()=>\x7b<p/>\x7d".toList, {}⟩ {} =
        (.ok code, table') ∧
      (emitExpr .plain (paragraphFunction.shift 3)).runFrom ⟨"é;()=>\x7b<p/>\x7d;x".toList, {}⟩ {} =
        (.ok code, table') := by
  have hwf : paragraphFunction.layout.WellFormed "()=>\x7b<p/>\x7d".toList := by decide +kernel
  exact ⟨hwf, (code_independent_of_place "é;".toList "()=>\x7b<p/>\x7d".toList ";x".toList {} {}).1
    .plain paragraphFunction hwf⟩

end MarkupCompiler
